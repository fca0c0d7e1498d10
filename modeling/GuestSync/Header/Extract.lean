/-
# GuestSync.Header.Extract -- from a header to its tables on disk

The name of the header is looked at before anything is read, and its members are
all read before anything is written. Tables are then selected and written one by
one, so a table that cannot be selected or written leaves those before it in
place. Each table is announced before it is written.
-/
import GuestSync.Header.Csv
import GuestSync.Header.Table
import GuestSync.Session

namespace GuestSync.Run

/-- Passes a failure of pure work on to the run. -/
def lift {α : Type} : Except Failure α → Run α
  | .ok a => return a
  | .error f => throw f

/-- Announces and writes a table. -/
def writeTable (path : Path) (members : List Member) : Run Unit := do
  note (.announce path)
  write path (Utf8.ofString (Csv.render members))

/-- Selects and writes one table. The path it is written to is the result. -/
def extractTable (directory : Path) (members : List Member) (t : Table) : Run Path := do
  let rows ← lift (t.select members)
  let path := directory.join (Path.ofString t.fileName)
  writeTable path rows
  return path

/-- Writes the tables of a header into a directory. -/
def extract (directory header : Path) : Run (List Path) := do
  let kind ← lift (Header.ofPath header)
  let members ← lift (Member.listOf (← read header))
  kind.tables.mapM (extractTable directory members)

end GuestSync.Run
