/-
# GuestSync.Session -- a run and what it leaves behind

A run works on a disk, counts what it does and keeps a journal. The journal holds
in order everything that the run sets out to do and everything that it says, so
each attempt stands in it whether it succeeds or not, and what is printed is read
off it. A run that fails stops there; its session keeps what was done before.

The tagger is either the disk, which stores a tag with the file, or a listener,
which only takes note and may refuse. A listener sees the disk and the calls
before, and nothing is assumed about its answers.
-/
import GuestSync.Disk.Operation
import GuestSync.Failure
import GuestSync.Sync.Plan
import GuestSync.Sync.Tally

namespace GuestSync

/-- A request to give a file its type and creator. -/
structure TagCall where
  path : Path
  block : Bytes
  deriving DecidableEq, Repr

/-- Who answers tag calls. -/
inductive Tagger where
  /-- The disk stores the block with the file. -/
  | disk
  /-- Someone takes note, and refuses with some words or accepts. -/
  | listener (refusal : Disk → List TagCall → TagCall → Option String)

/-- What a run says about one entry. The label is the entry's path as it is
shown. -/
inductive Progress where
  | written (kind : FileKind) (label : Path)
  | unchanged (label : Path)
  | deleted (label : Path)
  | skipped (label : Path) (reason : SkipReason)
  deriving DecidableEq, Repr

/-- The line for one entry. A dry run says what it would do. -/
def Progress.line : (dryRun : Bool) → Progress → String
  | false, .written kind label => kind.word ++ " " ++ label.display
  | true, .written kind label => "[DRY RUN] Would write " ++ kind.word ++ " " ++ label.display
  | false, .unchanged label => "Unchanged " ++ label.display
  | true, .unchanged label => "[DRY RUN] Unchanged " ++ label.display
  | false, .deleted label => "Delete " ++ label.display
  | true, .deleted label => "[DRY RUN] Would delete " ++ label.display
  | _, .skipped label reason => "Skip " ++ label.display ++ " (" ++ reason.words ++ ")"

/-- An entry of the journal. -/
inductive Event where
  /-- A line on standard output. -/
  | report (dryRun : Bool) (progress : Progress)
  /-- A line on standard error about a table that is going to be written. -/
  | announce (path : Path)
  | makeDirectories (path : Path)
  | write (path : Path) (content : Bytes)
  | tag (call : TagCall) (accepted : Bool)
  | delete (path : Path)
  deriving DecidableEq, Repr

/-- A run and what it leaves behind. -/
structure Session where
  disk : Disk
  tally : Tally
  journal : List Event

namespace Session

/-- The session of a run that has not begun. -/
def start (disk : Disk) : Session := ⟨disk, .zero, []⟩

/-- The tag calls so far, refused ones included. -/
def tagCalls (s : Session) : List TagCall :=
  s.journal.filterMap fun
    | .tag call _ => some call
    | _ => none

/-- The lines on standard output. -/
def outputLines (s : Session) : List String :=
  s.journal.filterMap fun
    | .report dryRun progress => some (progress.line dryRun)
    | _ => none

/-- The lines on standard error. -/
def errorLines (s : Session) : List String :=
  s.journal.filterMap fun
    | .announce path => some ("Writing " ++ path.display)
    | _ => none

/-- Lines as they are printed. -/
def print (lines : List String) : String := String.join (lines.map (· ++ "\n"))

end Session

/-- A run in progress: it changes its session and gives a result or fails. -/
abbrev Run := ExceptT Failure (StateM Session)

namespace Run

/-- Writes an event into the journal. -/
def note (e : Event) : Run Unit := modify fun s => { s with journal := s.journal ++ [e] }

/-- Counts something. -/
def count (f : Tally → Tally) : Run Unit := modify fun s => { s with tally := f s.tally }

/-- The answer of the disk to an operation on a path. -/
def ask {α : Type} (attempt : Attempt) (path : Path) (answer : Disk → Except OsError α) :
    Run α := do
  match answer (← get).disk with
  | .ok a => return a
  | .error e => throw (.operation attempt path (.system e))

/-- Puts a changed disk into the session. -/
def setDisk (d : Disk) : Run Unit := modify fun s => { s with disk := d }

/-- The content of a file. -/
def read (path : Path) : Run Bytes := ask .read path (·.read path)

/-- Whether a file holds exactly a content. A file that is not there does not. -/
def holds (path : Path) (content : Bytes) : Run Bool := do
  match (← get).disk.read path with
  | .ok existing => return existing == content
  | .error .notFound => return false
  | .error e => throw (.operation .read path (.system e))

/-- Gives a file a new content. -/
def write (path : Path) (content : Bytes) : Run Unit := do
  note (.write path content)
  setDisk (← ask .write path (·.write path content))

/-- Removes a file or a link. -/
def delete (path : Path) : Run Unit := do
  note (.delete path)
  setDisk (← ask .delete path (·.remove path))

/-- Makes a directory and those that it lies in. -/
def makeDirectories (path : Path) : Run Unit := do
  note (.makeDirectories path)
  let (disk, answer) := (← get).disk.makeDirectories path
  setDisk disk
  match answer with
  | .ok () => return ()
  | .error e => throw (.operation .makeDirectory path (.system e))

/-- The entries of a directory. -/
def list (dir : Path) : Run (List Entry) := do
  match (← get).disk.entries dir with
  | .ok entries => return entries
  | .error e => throw (.listing dir e)

/-- Gives a file its type and creator. -/
def tag (tagger : Tagger) (call : TagCall) : Run Unit := do
  let s ← get
  match tagger with
  | .disk =>
    match s.disk.setTag call.path call.block with
    | .ok disk => do
      note (.tag call true)
      setDisk disk
    | .error e => do
      note (.tag call false)
      throw (.tagging call.path (.system e))
  | .listener refusal =>
    match refusal s.disk s.tagCalls call with
    | none => note (.tag call true)
    | some words => do
      note (.tag call false)
      throw (.tagging call.path (.refused words))

end Run

end GuestSync
