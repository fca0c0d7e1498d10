/-
# GuestSync.Convert -- content from one side to the other

Text is UTF-8 with line feeds on the local side and Mac Roman with carriage
returns on the guest's. A conversion reads the text, takes its lines under any
line end, and writes each line with the end of the other side, so the result ends
in exactly one line end unless it is empty. Only a push can fail: when the input
is no UTF-8, or else when a character has no place in Mac Roman. Binary content
is taken over as it is.
-/
import GuestSync.Direction
import GuestSync.Rule.Table
import GuestSync.Text.Lines
import GuestSync.Text.MacRoman

namespace GuestSync

/-- Why a content cannot be converted. -/
inductive ConversionFault where
  /-- The input is not UTF-8. -/
  | unreadable
  /-- A character of the text is not in Mac Roman. -/
  | unwritable
  deriving DecidableEq, Repr

/-- The text for a fault. -/
def ConversionFault.message : ConversionFault → String
  | .unreadable => "input is not valid UTF-8 text"
  | .unwritable => "text contains characters not representable in macintosh"

/-- A text content for the side that the direction leads to. -/
def convertText : Direction → Bytes → Except ConversionFault Bytes
  | .push, input =>
    match Utf8.decode input with
    | none => .error .unreadable
    | some text =>
      match MacRoman.encode (Lines.toText '\r' (Lines.ofText text)) with
      | none => .error .unwritable
      | some output => .ok output
  | .pull, input =>
    .ok (Utf8.encode (Lines.toText '\n' (Lines.ofText (MacRoman.decode input))))

/-- A content for the side that the direction leads to. -/
def convert : FileKind → Direction → Bytes → Except ConversionFault Bytes
  | .text, direction, input => convertText direction input
  | .binary, _, input => .ok input

/-- The word for a kind of content in progress lines. -/
def FileKind.word : FileKind → String
  | .text => "Text"
  | .binary => "Data"

end GuestSync
