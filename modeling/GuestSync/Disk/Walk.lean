/-
# GuestSync.Disk.Walk -- from a path to a location

A path is walked one step at a time. Every step but the last must lead to a
directory, and a symbolic link on the way is replaced by the steps of its target.
A walk meets at most forty links, so it ends although links may form circles.
`stride` goes as far as the next link and is a recursion on the steps; `walk`
goes on behind each link and is a recursion on the links that are left.

What becomes of the last step depends on the operation: reading follows a link
in last place, listing and removing do not, and writing may end at a place where
nothing is yet.
-/
import GuestSync.Disk.Basic

namespace GuestSync

/-- One step of a walk: a component, or the slash after the last one, which asks
for a directory. -/
inductive Step where
  | root
  | here
  | up
  | name (n : Name)
  | slash
  deriving DecidableEq, Repr

/-- The step of a component. -/
def Step.ofComponent : Component → Step
  | .root => .root
  | .here => .here
  | .up => .up
  | .name n => .name n

/-- The steps of a path without the slash at its end. -/
def Path.bareSteps (p : Path) : List Step := p.written.map Step.ofComponent

/-- The steps of a path. -/
def Path.steps (p : Path) : List Step :=
  p.bareSteps ++ if p.endsInSlash then [.slash] else []

/-- What an operation asks of the last name of its path. -/
inductive LastName where
  /-- A link in last place stands for itself, and nothing need be there. -/
  | taken
  /-- A link in last place is followed, and something must be there. -/
  | followed
  /-- A link in last place is followed, and nothing need be there; a slash after
  the name is refused. -/
  | created
  deriving DecidableEq, Repr

/-- How far a walk comes before the next link. -/
inductive Stride where
  | arrived (l : Location)
  | blocked (e : OsError)
  | link (base : Location) (target : Path) (rest : List Step)
  deriving DecidableEq, Repr

namespace Disk

/-- The walk from a directory up to the next link that it has to follow. -/
def stride (d : Disk) (last : LastName) : Location → List Step → Stride
  | l, [] => .arrived l
  | _, .root :: r => d.stride last [] r
  | l, .here :: r => d.stride last l r
  | l, .slash :: r => d.stride last l r
  | l, .up :: r => d.stride last l.dropLast r
  | l, .name n :: r =>
    if last = .created ∧ r = [.slash] then .blocked .isDirectory
    else
      match d.node? (l ++ [n]) with
      | none => if r = [] ∧ last ≠ .followed then .arrived (l ++ [n]) else .blocked .notFound
      | some .directory => d.stride last (l ++ [n]) r
      | some (.link target) =>
        if r = [] ∧ last = .taken then .arrived (l ++ [n]) else .link l target r
      | some _ => if r = [] then .arrived (l ++ [n]) else .blocked .notDirectory

/-- The walk from a directory that may follow so many links. -/
def walk (d : Disk) (last : LastName) : Nat → Location → List Step → Except OsError Location
  | links, l, steps =>
    match d.stride last l steps, links with
    | .arrived l, _ => .ok l
    | .blocked e, _ => .error e
    | .link .., 0 => .error .tooManyLinks
    | .link base target rest, links + 1 => d.walk last links base (target.steps ++ rest)

/-- The number of links that one walk may follow. -/
def maxLinks : Nat := 40

/-- The location at the end of some steps from the directory that relative paths
start from. The path of no steps names nothing. -/
def locate (d : Disk) (last : LastName) (steps : List Step) : Except OsError Location :=
  if steps = [] then .error .notFound else d.walk last maxLinks d.start steps

end Disk

end GuestSync
