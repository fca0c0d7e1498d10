/-
# GuestSync.Layout -- which directories are kept in step

A layout names the root directory of either side, the subdirectories that exist
on both, and the rules for files. `check` refuses a layout before anything is
touched: roots must be given, there must be subdirectories, each of them must be
relative and stay inside its root, none may be listed twice, and the suffix of
every rule must be one that some file name can have.
-/
import GuestSync.Direction
import GuestSync.Path
import GuestSync.Rule.Table
import GuestSync.Text.Quoted

namespace GuestSync

/-- The two sides and what is taken between them. -/
structure Layout where
  localRoot : Path
  guestRoot : Path
  subdirs : List Path
  rules : RuleTable
  deriving DecidableEq, Repr

/-- Why a layout is refused. -/
inductive LayoutFault where
  | emptyLocalRoot
  | emptyGuestRoot
  | noSubdirs
  | emptySubdir
  | escapingSubdir (subdir : Path)
  | repeatedSubdir (subdir : Path)
  | badSuffix (suffix : String)
  deriving DecidableEq, Repr

/-- The text for a fault. -/
def LayoutFault.message : LayoutFault → String
  | .emptyLocalRoot => "local_root cannot be empty"
  | .emptyGuestRoot => "guest_root cannot be empty"
  | .noSubdirs => "subdirs cannot be empty"
  | .emptySubdir => "subdir cannot be empty"
  | .escapingSubdir p => "subdir " ++ p.display ++ " must be relative and stay inside the root"
  | .repeatedSubdir p => "subdir " ++ p.display ++ " is listed more than once"
  | .badSuffix s => "rule suffix " ++ Quoted.ofString s ++ " must be a dot followed by a name"

namespace Layout

/-- The subdirectories of a layout that names none. -/
def standardSubdirs : List Path := [".", "macos", "sync", "lib"].map Path.ofString

/-- The standard subdirectories and rules under two roots. -/
def standard (localRoot guestRoot : Path) : Layout :=
  { localRoot, guestRoot, subdirs := standardSubdirs, rules := .standard }

/-- The root that files are taken from. -/
def sourceRoot (l : Layout) : Direction → Path
  | .push => l.localRoot
  | .pull => l.guestRoot

/-- The root that files are taken to. -/
def destinationRoot (l : Layout) : Direction → Path
  | .push => l.guestRoot
  | .pull => l.localRoot

/-- Whether a path is absolute or has a `..`, so that it may leave the directory
it is taken in. -/
def escapes (p : Path) : Bool := p.components.any fun c => c == .root || c == .up

/-- Refuses the first subdirectory that is empty, leaves its root or is one of
those before it. -/
def checkSubdirs (seen : List Path) : List Path → Except LayoutFault Unit
  | [] => .ok ()
  | p :: r =>
    if p.isEmpty then .error .emptySubdir
    else if escapes p then .error (.escapingSubdir p)
    else if seen.any (·.same p) then .error (.repeatedSubdir p)
    else checkSubdirs (p :: seen) r

/-- Refuses the first suffix that no file name can have. -/
def checkSuffixes : List String → Except LayoutFault Unit
  | [] => .ok ()
  | s :: r => if Suffix.wellFormed s then checkSuffixes r else .error (.badSuffix s)

/-- Refuses a layout that cannot be worked with, naming its first fault. -/
def check (l : Layout) : Except LayoutFault Unit :=
  if l.localRoot.isEmpty then .error .emptyLocalRoot
  else if l.guestRoot.isEmpty then .error .emptyGuestRoot
  else if l.subdirs = [] then .error .noSubdirs
  else do
    checkSubdirs [] l.subdirs
    checkSuffixes l.rules.suffixes

end Layout

end GuestSync
