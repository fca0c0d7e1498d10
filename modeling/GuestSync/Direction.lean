/-
# GuestSync.Direction -- which of the two sides is the source
-/
import GuestSync.Bytes

namespace GuestSync

/-- A push takes files from the local side to the guest, a pull takes them
back. -/
inductive Direction where
  | push
  | pull
  deriving DecidableEq, Repr

namespace Direction

/-- The word for a direction on the command line and in reports. -/
def word : Direction → String
  | .push => "push"
  | .pull => "pull"

/-- Whether the files that a run writes get a type and a creator: only the guest
knows them. -/
def tagsDestination : Direction → Bool
  | .push => true
  | .pull => false

end Direction

end GuestSync
