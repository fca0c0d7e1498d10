/-
# GuestSync.Text.Utf8 -- strict and lossy reading of UTF-8

The reader is an automaton that takes one octet at a time. Between characters it
is `ready`; inside a character it knows which octets may come next, so overlong
forms, surrogates and values above U+10FFFF are refused at the first octet that
betrays them. `decode` accepts exactly the well-formed sequences, and `lossy`
replaces each longest ill-formed part by U+FFFD, which is how a path that is not
text is shown in a message.
-/
import GuestSync.Bytes

namespace GuestSync.Utf8

/-! ## Writing -/

/-- The octets of one character. -/
def encodeChar (c : Char) : Bytes :=
  let n := c.toNat
  if n < 0x80 then [UInt8.ofNat n]
  else if n < 0x800 then
    [UInt8.ofNat (0xC0 + n / 0x40), UInt8.ofNat (0x80 + n % 0x40)]
  else if n < 0x10000 then
    [UInt8.ofNat (0xE0 + n / 0x1000), UInt8.ofNat (0x80 + n / 0x40 % 0x40),
      UInt8.ofNat (0x80 + n % 0x40)]
  else
    [UInt8.ofNat (0xF0 + n / 0x40000), UInt8.ofNat (0x80 + n / 0x1000 % 0x40),
      UInt8.ofNat (0x80 + n / 0x40 % 0x40), UInt8.ofNat (0x80 + n % 0x40)]

/-- The octets of a text. -/
def encode (cs : List Char) : Bytes := cs.flatMap encodeChar

theorem encode_append (cs ds : List Char) : encode (cs ++ ds) = encode cs ++ encode ds := by
  simp [encode]

/-- The octets of a string. -/
def ofString (s : String) : Bytes := encode s.toList

/-! ## The automaton -/

/-- Where the reader stands: between characters, or inside one, with the value
read so far, the least and greatest octet that may come next, and how many
octets come after that one. -/
inductive State where
  | ready
  | within (value : Nat) (low high : UInt8) (more : Nat)
  deriving DecidableEq, Repr

/-- The state after the first octet of a character of two to four octets. -/
def lead (b : UInt8) : Option State :=
  if b < 0xC2 then none
  else if b < 0xE0 then some (.within (b.toNat - 0xC0) 0x80 0xBF 0)
  else if b == 0xE0 then some (.within 0x0 0xA0 0xBF 1)
  else if b == 0xED then some (.within 0xD 0x80 0x9F 1)
  else if b < 0xF0 then some (.within (b.toNat - 0xE0) 0x80 0xBF 1)
  else if b == 0xF0 then some (.within 0x0 0x90 0xBF 2)
  else if b < 0xF4 then some (.within (b.toNat - 0xF0) 0x80 0xBF 2)
  else if b == 0xF4 then some (.within 0x4 0x80 0x8F 2)
  else none

/-- One octet: the character that it completes, if any, and the next state.
`none` where no well-formed text goes on with this octet. -/
def feed : State → UInt8 → Option (Option Char × State)
  | .ready, b =>
    if b < 0x80 then some (some (Char.ofNat b.toNat), .ready)
    else (lead b).map fun s => (none, s)
  | .within value low high more, b =>
    if low ≤ b && b ≤ high then
      let value := value * 0x40 + (b.toNat - 0x80)
      match more with
      | 0 => some (some (Char.ofNat value), .ready)
      | more + 1 => some (none, .within value 0x80 0xBF more)
    else none

/-! ## Reading -/

/-- The text that the octets complete, read on from a state. -/
def decodeFrom : State → Bytes → Option (List Char)
  | .ready, [] => some []
  | .within .., [] => none
  | s, b :: r =>
    match feed s b with
    | none => none
    | some (none, s) => decodeFrom s r
    | some (some c, s) => (decodeFrom s r).map (c :: ·)

/-- The characters of a well-formed octet string, and `none` for any other. -/
def decode (bs : Bytes) : Option (List Char) := decodeFrom .ready bs

/-- The string of a well-formed octet string. -/
def toString? (bs : Bytes) : Option String := (decode bs).map String.ofList

/-- The character that stands for an ill-formed part. -/
def replacement : Char := Char.ofNat 0xFFFD

/-- One octet of text that may be ill-formed. An octet that cannot go on with the
character before it ends that part and is then read afresh. -/
def feedLossy (s : State) (b : UInt8) : List Char × State :=
  match feed s b with
  | some (c, s) => (c.toList, s)
  | none =>
    match s with
    | .ready => ([replacement], .ready)
    | .within .. =>
      match feed .ready b with
      | some (c, s) => (replacement :: c.toList, s)
      | none => ([replacement, replacement], .ready)

/-- The text of any octets, read on from a state. -/
def lossyFrom : State → Bytes → List Char
  | .ready, [] => []
  | .within .., [] => [replacement]
  | s, b :: r => (feedLossy s b).1 ++ lossyFrom (feedLossy s b).2 r

/-- The text of any octets, with U+FFFD for each longest ill-formed part. -/
def lossy (bs : Bytes) : String := String.ofList (lossyFrom .ready bs)

end GuestSync.Utf8
