/-
# GuestSync.Sync.Entry -- the entries of a directory

A directory is listed flat: its direct entries, in the order of their names'
octets, and nothing below them. An entry is classified by what it leads to, so a
link to a file is a file and a link that leads nowhere is broken.
-/
import GuestSync.Disk.Operation

namespace GuestSync

/-- What an entry leads to. -/
inductive EntryKind where
  | file
  | directory
  | other
  | broken
  deriving DecidableEq, Repr

/-- An entry of a directory. Its name is missing if it is not UTF-8. -/
structure Entry where
  path : Path
  name : Option String
  kind : EntryKind
  deriving DecidableEq, Repr

/-- The kind of what a path leads to. -/
def EntryKind.ofStatus : Except OsError Node → EntryKind
  | .ok (.file ..) => .file
  | .ok .directory => .directory
  | .ok _ => .other
  | .error _ => .broken

/-- The entry of a name in a directory. -/
def Disk.entry (d : Disk) (dir : Path) (n : Name) : Entry :=
  { path := dir.child n
    name := Utf8.toString? n
    kind := EntryKind.ofStatus (d.status (dir.child n)) }

/-- The entries of the directory that a path leads to. -/
def Disk.entries (d : Disk) (dir : Path) : Except OsError (List Entry) := do
  return (← d.list dir).map (d.entry dir)

end GuestSync
