/-
# GuestSync.Bytes -- octet strings and the ASCII classes

File contents, names of directory entries and paths are octet strings: nothing
promises that they are text. This module fixes the type and the few classes of
octets that the library tests for. The classes are ASCII classes on purpose:
headers and paths are read octet by octet, and no octet of a multi-byte
character is ASCII.
-/

namespace GuestSync

/-- An octet string. -/
abbrev Bytes := List UInt8

namespace Ascii

/-- The octet `/`. -/
def slash : UInt8 := 0x2F

/-- The octet `.`. -/
def dot : UInt8 := 0x2E

/-- The line feed octet. -/
def lineFeed : UInt8 := 0x0A

/-- The carriage return octet. -/
def carriageReturn : UInt8 := 0x0D

/-- The octets `0` to `9`. -/
def isDigit (b : UInt8) : Bool := 0x30 ≤ b && b ≤ 0x39

/-- The octets `A` to `Z`. -/
def isUpper (b : UInt8) : Bool := 0x41 ≤ b && b ≤ 0x5A

/-- The octets `a` to `z`. -/
def isLower (b : UInt8) : Bool := 0x61 ≤ b && b ≤ 0x7A

/-- The digits and the letters `A` to `F` in either case. -/
def isHexDigit (b : UInt8) : Bool :=
  isDigit b || (0x41 ≤ b && b ≤ 0x46) || (0x61 ≤ b && b ≤ 0x66)

/-- Letters, digits and the underscore: the octets of an identifier. -/
def isWord (b : UInt8) : Bool := isDigit b || isUpper b || isLower b || b == 0x5F

/-- Tab, line feed, vertical tab, form feed, carriage return and space. -/
def isSpace (b : UInt8) : Bool := (0x09 ≤ b && b ≤ 0x0D) || b == 0x20

/-- The small letter of a capital letter, any other octet as it is. -/
def toLower (b : UInt8) : UInt8 := if isUpper b then b + 0x20 else b

end Ascii

end GuestSync
