/-
# GuestSync.Rule.Suffix -- the part of a file name that picks its rule

The suffix of a name starts at its last dot. A dot in first place starts none,
so `.profile` has no suffix, and neither does a name that ends in a dot. What can
be the suffix of some name is exactly a dot and then a nonempty text without
dots; `wellFormed` tests for that form.

`ofName` and `wellFormed` go through the characters of a text. `ofOctets?` and
`wellFormedOctets?` go through its octets and cut at the places of dots. A cut inside
a character has no result.
-/
import GuestSync.Text.Lines

namespace GuestSync.Suffix

/-- The part of a text from its last dot on, if it has a dot. -/
def fromLastDot : List Char → Option (List Char)
  | [] => none
  | c :: r =>
    match fromLastDot r with
    | some s => some s
    | none => if c = '.' then some (c :: r) else none

/-- The suffix of a name, with its dot. -/
def ofName (name : String) : Option String :=
  match name.toList with
  | [] => none
  | _ :: r =>
    match fromLastDot r with
    | some (dot :: c :: ext) => some (String.ofList (dot :: c :: ext))
    | _ => none

/-- Whether a text is a dot and then a nonempty text without dots. -/
def wellFormed (s : String) : Bool :=
  match s.toList with
  | '.' :: c :: ext => !(c :: ext).contains '.'
  | _ => false

/-! ## Octet by octet -/

/-- The place of the last dot among octets. -/
def lastDot? : Bytes → Option Nat
  | [] => none
  | b :: r =>
    match lastDot? r with
    | some i => some (i + 1)
    | none => if b = Ascii.dot then some 0 else none

/-- The suffix of a name, cut out of its octets at their last dot. -/
def ofOctets? (octets : Bytes) : Option (Option Bytes) :=
  match lastDot? octets with
  | none => some none
  | some i =>
    if i = 0 ∨ i + 1 = octets.length then some none
    else (Lines.slice? octets i octets.length).map some

/-- Whether octets are a dot and then something without dots. What stands behind the first
octet is cut out only if that is a dot. -/
def wellFormedOctets? (octets : Bytes) : Option Bool :=
  if 1 < octets.length ∧ octets.head? = some Ascii.dot then
    (Lines.slice? octets 1 octets.length).map fun r => !r.contains Ascii.dot
  else some false

end GuestSync.Suffix
