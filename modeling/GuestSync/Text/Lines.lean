/-
# GuestSync.Text.Lines -- lines under any of the three line ends

A line ends at a carriage return followed by a line feed, at a lone carriage
return or at a lone line feed. The end is not part of the line, and text after
the last end is a line only if there is some.

`ofText` goes through the characters of a text. `split?` goes through its octets, with
the place where a line starts and the place that is looked at, and cuts the lines out
at such places. A cut inside a character has no result.
-/
import GuestSync.Bytes

namespace GuestSync.Lines

/-- The lines of a text, without their ends. -/
def ofText : List Char → List (List Char)
  | [] => []
  | '\n' :: r => [] :: ofText r
  | '\r' :: '\n' :: r => [] :: ofText r
  | '\r' :: r => [] :: ofText r
  | c :: r =>
    match ofText r with
    | [] => [[c]]
    | line :: lines => (c :: line) :: lines

/-- The text whose lines all end in `terminator`. -/
def toText (terminator : Char) (lines : List (List Char)) : List Char :=
  lines.flatMap (· ++ [terminator])

/-! ## Octet by octet -/

/-- Whether a place among the octets of a text is between characters: at the end, or in
front of an octet that a character can start with. -/
def isBoundary (octets : Bytes) (i : Nat) : Bool :=
  match octets[i]? with
  | none => i == octets.length
  | some b => b < 0x80 || 0xC0 ≤ b

/-- The octets between two places, both of which must be between characters. -/
def slice? (octets : Bytes) (start stop : Nat) : Option Bytes :=
  if start ≤ stop ∧ isBoundary octets start ∧ isBoundary octets stop then
    some ((octets.drop start).take (stop - start))
  else none

/-- The lines from `start` on, where no line ends between `start` and `i`. -/
def splitFrom (octets : Bytes) (start i : Nat) : Option (List Bytes) :=
  if h : i < octets.length then
    if octets[i] = Ascii.lineFeed then do
      let line ← slice? octets start i
      return line :: (← splitFrom octets (i + 1) (i + 1))
    else if octets[i] = Ascii.carriageReturn then do
      let line ← slice? octets start i
      -- A line feed right behind belongs to the same line end.
      let next := if octets[i + 1]? = some Ascii.lineFeed then i + 2 else i + 1
      return line :: (← splitFrom octets next next)
    else splitFrom octets start (i + 1)
  else if start < octets.length then do
    return [← slice? octets start octets.length]
  else some []
termination_by octets.length - i
decreasing_by
  · omega
  · split <;> omega
  · omega

/-- The lines of the octets of a text, without their ends. -/
def split? (octets : Bytes) : Option (List Bytes) := splitFrom octets 0 0

end GuestSync.Lines
