/-
# GuestSync.Header.Member -- the numbered members of C enumerations

A member is a line that starts with a name, an equals sign and a number; blanks,
line ends included, may stand in between and in front. The number is decimal, or
hexadecimal behind `0x`, and may carry the suffixes `u` and `l` in this order and
in either case. No word octet may follow it. Everything else in a header is passed
over, so neither the syntax of C nor comments matter.
-/
import GuestSync.Failure
import GuestSync.Header.Pattern

namespace GuestSync

/-- A member of an enumeration. -/
structure Member where
  name : String
  value : UInt64
  deriving DecidableEq, Repr

namespace Member

/-- An octet that is the given letter in either case. The letter is given small. -/
def letter (b : UInt8) : Pattern := .one fun c => Ascii.toLower c == b

/-- One or more octets of a class. -/
def oneOrMore (holds : UInt8 → Bool) : Pattern := .both (.one holds) (.many holds)

/-- A number with its mark for the base sixteen. -/
def hexLiteral : Pattern :=
  .sequence [.one (· == 0x30), letter 0x78, oneOrMore Ascii.isHexDigit]

/-- A number, without its suffixes. -/
def literal : Pattern := .either hexLiteral (oneOrMore Ascii.isDigit)

/-- A member. Its name and its number are kept. -/
def pattern : Pattern :=
  .sequence [.lineStart, .many Ascii.isSpace, .group (oneOrMore Ascii.isWord), .many Ascii.isSpace,
    .one (· == 0x3D), .many Ascii.isSpace, .group literal, .maybe (letter 0x75),
    .maybe (letter 0x6C), .wordEdge]

/-! ## Numbers -/

/-- The product of two numbers, if it is below 2^64. -/
def product? (a b : UInt64) : Option UInt64 :=
  if a.toNat * b.toNat < UInt64.size then some (a * b) else none

/-- The sum of two numbers, if it is below 2^64. -/
def sum? (a b : UInt64) : Option UInt64 :=
  if a.toNat + b.toNat < UInt64.size then some (a + b) else none

/-- The value of a digit of either case. -/
def digitValue (b : UInt8) : UInt8 :=
  if Ascii.isDigit b then b - 0x30 else Ascii.toLower b - 0x61 + 10

/-- The number with one more digit behind its digits to a base. There is none if the
octet is no digit or the number too large. -/
def pushDigit? (base : UInt64) (isDigit : UInt8 → Bool) (n : UInt64) (d : UInt8) :
    Option UInt64 := do
  guard (isDigit d)
  sum? (← product? n base) (digitValue d).toUInt64

/-- The number of one or more digits to a base. It is checked at every digit. -/
def number? (base : UInt64) (isDigit : UInt8 → Bool) (ds : Bytes) : Option UInt64 :=
  if ds = [] then none else ds.foldlM (pushDigit? base isDigit) 0

/-- The number of a literal, if it is below 2^64. -/
def value? (literal : Bytes) : Option UInt64 :=
  match literal with
  | z :: x :: r =>
    if z = 0x30 ∧ Ascii.toLower x = 0x78 then number? 16 Ascii.isHexDigit r
    else number? 10 Ascii.isDigit (z :: x :: r)
  | ds => number? 10 Ascii.isDigit ds

/-- The string of ASCII octets. -/
def asciiString (bs : Bytes) : String := String.ofList (bs.map fun b => Char.ofNat b.toNat)

/-- The member of a name and a literal, which must denote a number below 2^64. -/
def ofParts (name literal : Bytes) : Except Failure Member :=
  match value? literal with
  | some value => .ok ⟨asciiString name, value⟩
  | none => .error (.badLiteral (asciiString name) (asciiString literal))

/-- The names and literals in a header, in the order of the text. -/
def literals (header : Bytes) : List (Bytes × Bytes) :=
  (pattern.occurrences header).filterMap fun
    | [name, literal] => some (name, literal)
    | _ => none

/-- The members of a header, in the order of the text. -/
def listOf (header : Bytes) : Except Failure (List Member) :=
  (literals header).mapM fun (name, literal) => ofParts name literal

end Member

end GuestSync
