/-
# GuestSync.Toml.Quote -- quoted strings

Basic strings stand between double quotes and know escapes, literal strings stand
between apostrophes and know none. Either may run over several lines when it
stands between three quotes; up to two quotes may then stand in front of the
closing three. Control characters other than the tab are refused everywhere.

Each reader starts behind the opening quotes and answers the text with what
follows the closing ones.
-/
import GuestSync.Toml.Scalar

namespace GuestSync.Toml

/-- A text and what follows it. -/
abbrev Taken := List Char × List Char

/-- The text with a character in front. -/
def Taken.cons (c : Char) (t : Taken) : Taken := (c :: t.1, t.2)

/-- Whether a character may stand for itself: no control character but the tab. -/
def isPlain (c : Char) : Bool := c == '\t' || (' ' ≤ c && c.toNat ≠ 0x7F)

/-- The character of an escape of one letter. -/
def shortEscape? : Char → Option Char
  | 'b' => some (Char.ofNat 0x08)
  | 't' => some '\t'
  | 'n' => some '\n'
  | 'f' => some (Char.ofNat 0x0C)
  | 'r' => some '\r'
  | 'e' => some (Char.ofNat 0x1B)
  | '"' => some '"'
  | '\\' => some '\\'
  | _ => none

/-- The character of an escape by code point. -/
def codeEscape? (ds : List Char) : Option Char :=
  if ds.all isHexDigit && (ofDigits 16 ds).isValidChar then some (Char.ofNat (ofDigits 16 ds))
  else none

/-- Whether only blanks stand before the next line end. -/
def lineEndsHere : List Char → Bool
  | ' ' :: r => lineEndsHere r
  | '\t' :: r => lineEndsHere r
  | '\n' :: _ => true
  | '\r' :: '\n' :: _ => true
  | _ => false

/-- A basic string on one line. -/
def basic? : List Char → Option Taken
  | '"' :: r => some ([], r)
  | '\\' :: 'x' :: a :: b :: r => do (← basic? r).cons (← codeEscape? [a, b])
  | '\\' :: 'u' :: a :: b :: c :: d :: r => do (← basic? r).cons (← codeEscape? [a, b, c, d])
  | '\\' :: 'U' :: a :: b :: c :: d :: e :: f :: g :: h :: r => do
    (← basic? r).cons (← codeEscape? [a, b, c, d, e, f, g, h])
  | '\\' :: c :: r => do (← basic? r).cons (← shortEscape? c)
  | c :: r => if isPlain c then (basic? r).map (Taken.cons c) else none
  | [] => none

/-- A basic string over several lines. While `trim` holds, the blanks and line
ends behind a backslash at the end of a line are passed over. -/
def basicLines? : (trim : Bool) → List Char → Option Taken
  | true, ' ' :: r => basicLines? true r
  | true, '\t' :: r => basicLines? true r
  | true, '\n' :: r => basicLines? true r
  | true, '\r' :: '\n' :: r => basicLines? true r
  | _, '"' :: '"' :: '"' :: '"' :: '"' :: r => some (['"', '"'], r)
  | _, '"' :: '"' :: '"' :: '"' :: r => some (['"'], r)
  | _, '"' :: '"' :: '"' :: r => some ([], r)
  | _, '\\' :: 'x' :: a :: b :: r => do
    (← basicLines? false r).cons (← codeEscape? [a, b])
  | _, '\\' :: 'u' :: a :: b :: c :: d :: r => do
    (← basicLines? false r).cons (← codeEscape? [a, b, c, d])
  | _, '\\' :: 'U' :: a :: b :: c :: d :: e :: f :: g :: h :: r => do
    (← basicLines? false r).cons (← codeEscape? [a, b, c, d, e, f, g, h])
  | _, '\\' :: c :: r =>
    if lineEndsHere (c :: r) then basicLines? true r
    else do (← basicLines? false r).cons (← shortEscape? c)
  | _, '\r' :: '\n' :: r => do ((← basicLines? false r).cons '\n').cons '\r'
  | _, c :: r => if isPlain c || c == '\n' then (basicLines? false r).map (Taken.cons c) else none
  | _, [] => none

/-- A literal string on one line. -/
def literal? : List Char → Option Taken
  | '\'' :: r => some ([], r)
  | c :: r => if isPlain c then (literal? r).map (Taken.cons c) else none
  | [] => none

/-- A literal string over several lines. -/
def literalLines? : List Char → Option Taken
  | '\'' :: '\'' :: '\'' :: '\'' :: '\'' :: r => some (['\'', '\''], r)
  | '\'' :: '\'' :: '\'' :: '\'' :: r => some (['\''], r)
  | '\'' :: '\'' :: '\'' :: r => some ([], r)
  | '\r' :: '\n' :: r => do ((← literalLines? r).cons '\n').cons '\r'
  | c :: r => if isPlain c || c == '\n' then (literalLines? r).map (Taken.cons c) else none
  | [] => none

/-- A line end right behind the opening quotes is no part of the text. -/
def dropLineEnd : List Char → List Char
  | '\n' :: r => r
  | '\r' :: '\n' :: r => r
  | cs => cs

/-- Any string that starts here, in one of its four forms. -/
def quoted? : List Char → Option Taken
  | '"' :: '"' :: '"' :: r => basicLines? false (dropLineEnd r)
  | '"' :: r => basic? r
  | '\'' :: '\'' :: '\'' :: r => literalLines? (dropLineEnd r)
  | '\'' :: r => literal? r
  | _ => none

/-- A string on one line, the form of a quoted key. -/
def quotedKey? : List Char → Option Taken
  | '"' :: r => basic? r
  | '\'' :: r => literal? r
  | _ => none

end GuestSync.Toml
