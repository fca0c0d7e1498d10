/-
# GuestSync.Text.Quoted -- text between double quotes, as messages show it

A quoted text shows on one line what the text holds: the quote, the backslash
and five control characters have a short escape, and every other character that
has no glyph of its own or joins the one before it is written by its code point
in braces. Apostrophes stay as they are.
-/
import GuestSync.Text.Unprintable
import GuestSync.Text.GraphemeExtend

namespace GuestSync.Quoted

/-- The digits of a number to the base sixteen, in small letters. -/
def hex (n : Nat) : List Char := Nat.toDigits 16 n

/-- One character between the quotes. -/
def escape (c : Char) : List Char :=
  match c with
  | '\x00' => ['\\', '0']
  | '\t' => ['\\', 't']
  | '\r' => ['\\', 'r']
  | '\n' => ['\\', 'n']
  | '"' => ['\\', '"']
  | '\\' => ['\\', '\\']
  | c =>
    if GraphemeExtend.holds c || Unprintable.holds c then
      ['\\', 'u', '\x7b'] ++ hex c.toNat ++ ['\x7d']
    else [c]

/-- A text between double quotes. -/
def ofString (s : String) : String :=
  String.ofList ('"' :: s.toList.flatMap escape ++ ['"'])

end GuestSync.Quoted
