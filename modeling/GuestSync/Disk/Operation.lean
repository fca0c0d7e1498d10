/-
# GuestSync.Disk.Operation -- what programs do to a disk

Each operation takes a path and either fails with the system's error or gives its
answer. One that fails leaves the disk as it was; the only exception is
`makeDirectories`, which keeps the directories it made before it failed and
therefore returns the disk in either case.
-/
import GuestSync.Disk.Walk

namespace GuestSync.Disk

/-! ## Looking -/

/-- The node that a path leads to, links followed. -/
def status (d : Disk) (p : Path) : Except OsError Node := do
  match d.node? (← d.locate .followed p.steps) with
  | some n => .ok n
  | none => .error .notFound

/-- The node that a path names, a link in last place not followed. -/
def entryStatus (d : Disk) (p : Path) : Except OsError Node := do
  match d.node? (← d.locate .taken p.steps) with
  | some n => .ok n
  | none => .error .notFound

/-- Whether a path leads to a directory. -/
def isDirectory (d : Disk) (p : Path) : Bool :=
  match d.status p with
  | .ok .directory => true
  | _ => false

/-- Whether a path leads to a regular file. -/
def isFile (d : Disk) (p : Path) : Bool :=
  match d.status p with
  | .ok (.file ..) => true
  | _ => false

/-- The content of the file that a path leads to. -/
def read (d : Disk) (p : Path) : Except OsError Bytes := do
  match ← d.status p with
  | .file content _ => .ok content
  | .fifo => .error .wouldBlock
  | _ => .error .isDirectory

/-- The names in the directory that a path leads to. What is no directory is
listed as empty, whereas a path that leads nowhere fails. -/
def list (d : Disk) (p : Path) : Except OsError (List Name) := do
  let l ← d.locate .followed p.steps
  match d.node? l with
  | some .directory => .ok (d.children l)
  | some _ => .ok []
  | none => .error .notFound

/-- The absolute path, free of links, of what a path leads to. -/
def canonical (d : Disk) (p : Path) : Except OsError Path := do
  let l ← d.locate .followed p.steps
  .ok (Path.ofComponents (.root :: l.map .name))

/-! ## Writing and removing -/

/-- The disk after the file at the end of a path has got a new content. The file
is made if there is none, and one that is there keeps its tag. -/
def write (d : Disk) (p : Path) (content : Bytes) : Except OsError Disk := do
  let l ← d.locate .created p.steps
  match d.node? l with
  | none => .ok (d.put l (.file content none))
  | some (.file _ tag) => .ok (d.put l (.file content tag))
  | some .fifo => .error .wouldBlock
  | some _ => .error .isDirectory

/-- The disk without the file, pipe or link that a path names. -/
def remove (d : Disk) (p : Path) : Except OsError Disk := do
  let l ← d.locate .taken p.bareSteps
  match d.node? l with
  | none => .error .notFound
  | some .directory => .error .isDirectory
  | some _ => if p.endsInSlash then .error .notDirectory else .ok (d.erase l)

/-- The disk after the file that a path names has got a tag. Links and pipes
cannot carry one. A directory can, but its tag is never read again. -/
def setTag (d : Disk) (p : Path) (tag : Bytes) : Except OsError Disk := do
  let l ← d.locate .taken p.steps
  match d.node? l with
  | none => .error .notFound
  | some .directory => .ok d
  | some (.file content _) => .ok (d.put l (.file content (some tag)))
  | some _ => .error .notPermitted

/-! ## Making directories and other entries -/

/-- The disk with a new node where a path names nothing yet. -/
def make (d : Disk) (p : Path) (n : Node) : Except OsError Disk := do
  let l ← d.locate .taken p.bareSteps
  match d.node? l with
  | none => .ok (d.put l n)
  | some _ => .error .exists

/-- A node is made where a walk arrives and nothing is. -/
theorem make_of_ok {d e : Disk} {p : Path} {n : Node} (h : d.make p n = .ok e) :
    ∃ l, d.locate .taken p.bareSteps = .ok l ∧ d.node? l = none ∧ d.put l n = e := by
  unfold make at h
  cases hloc : d.locate .taken p.bareSteps with
  | error err => simp [hloc, bind, Except.bind] at h
  | ok l =>
    simp only [hloc, bind, Except.bind] at h
    cases hl : d.node? l with
    | some x => simp [hl] at h
    | none => exact ⟨l, rfl, hl, by simpa [hl] using h⟩

/-- The disk with a new directory. -/
def makeDirectory (d : Disk) (p : Path) : Except OsError Disk := d.make p .directory

/-- Makes the first of the directories, and where that fails because something on
the way to it is missing, makes the others before it tries again. A directory
that is there already is as good as made. -/
def makeFirst (d : Disk) : List Path → Disk × Except OsError Unit
  | [] => (d, .ok ())
  | p :: above =>
    match d.makeDirectory p with
    | .ok d => (d, .ok ())
    | .error .notFound =>
      match d.makeFirst above with
      | (d, .error e) => (d, .error e)
      | (d, .ok ()) =>
        match d.makeDirectory p with
        | .ok d => (d, .ok ())
        | .error e => (d, if d.isDirectory p then .ok () else .error e)
    | .error e => (d, if d.isDirectory p then .ok () else .error e)

/-- The disk with a directory at the end of a path, and with the directories that
it lies in by its components. -/
def makeDirectories (d : Disk) (p : Path) : Disk × Except OsError Unit :=
  if p.isEmpty then (d, .ok ()) else d.makeFirst (p :: p.enclosing)

theorem makeFirst_induction {I : Disk → Prop}
    (step : ∀ {d e : Disk} {p : Path}, I d → d.makeDirectory p = .ok e → I e) {d : Disk}
    (h : I d) (ps : List Path) : I (d.makeFirst ps).1 := by
  induction ps with
  | nil => exact h
  | cons p above ih =>
    unfold makeFirst
    split
    · next e hmake => exact step h hmake
    · split
      · next e err habove => rwa [habove] at ih
      · next e habove =>
        rw [habove] at ih
        split
        · next e' hmake => exact step ih hmake
        · exact ih
    · exact h

/-- What each directory that is made leaves true stays true, also if it ends in a
failure. -/
theorem makeDirectories_induction {I : Disk → Prop}
    (step : ∀ {d e : Disk} {p : Path}, I d → d.makeDirectory p = .ok e → I e) {d : Disk}
    (h : I d) (p : Path) : I (d.makeDirectories p).1 := by
  unfold makeDirectories
  split
  · exact h
  · exact makeFirst_induction step h _

/-- The disk without a path's node and without all that lies below it. -/
def removeAll (d : Disk) (p : Path) : Except OsError Disk := do
  let l ← d.locate .taken p.bareSteps
  match d.node? l with
  | none => .error .notFound
  | some _ => .ok { d with nodes := d.nodes.filter fun e => !l.isPrefixOf e.1 }

end GuestSync.Disk
