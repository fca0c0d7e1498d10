/-
# GuestSync.Header.Table -- which members make which table

Two headers are known, by their base names in any case. Each yields tables of
the members whose names start in a given way, and a table may be bounded: it then
runs from the first member of one name through the first member of another, among
the members that start that way.
-/
import GuestSync.Header.Member

namespace GuestSync

/-- A header with tables in it. -/
inductive Header where
  | script
  | textCommon
  deriving DecidableEq, Repr

/-- A table of members. -/
structure Table where
  fileName : String
  /-- How the names of its members start. -/
  start : String
  /-- The names of its first and last member, if it is bounded. -/
  range : Option (String × String)
  deriving DecidableEq, Repr

namespace Header

/-- The base name of a header, in small letters. -/
def baseName : Header → String
  | .script => "script.h"
  | .textCommon => "textcommon.h"

/-- The header that a path names. -/
def ofPath (p : Path) : Except Failure Header :=
  let name := p.fileName?.map fun n => n.map Ascii.toLower
  if name = some (Utf8.ofString (baseName .script)) then .ok .script
  else if name = some (Utf8.ofString (baseName .textCommon)) then .ok .textCommon
  else .error (.unknownHeader p)

/-- The tables of a header, in the order in which they are written. -/
def tables : Header → List Table
  | .script =>
    [⟨"script.csv", "sm", some ("smRoman", "smUninterp")⟩,
      ⟨"region.csv", "ver", some ("verUS", "verGreenland")⟩]
  | .textCommon => [⟨"encoding.csv", "kTextEncoding", none⟩]

end Header

namespace Member

/-- The position of the first member of a name. -/
def indexOf (members : List Member) (name : String) : Except Failure Nat :=
  match members.findIdx? (·.name == name) with
  | some i => .ok i
  | none => .error (.missingMember name)

/-- The members from the first of one name through the first of another, none if
the second stands before the first. -/
def slice (members : List Member) (first last : String) : Except Failure (List Member) := do
  let i ← indexOf members first
  let j ← indexOf members last
  return (members.drop i).take (j + 1 - i)

/-- Whether the name of a member starts with a text. -/
def startsWith (text : String) (m : Member) : Bool := text.toList.isPrefixOf m.name.toList

end Member

namespace Table

/-- The members of a table, out of all members of its header. -/
def select (t : Table) (members : List Member) : Except Failure (List Member) :=
  let matching := members.filter (Member.startsWith t.start)
  match t.range with
  | some (first, last) => Member.slice matching first last
  | none => .ok matching

end Table

end GuestSync
