/-
# GuestSync.Sync.Tally -- what a run has done, counted

Every entry that was dealt with counts once: as converted, unchanged, deleted or
skipped. Skipped entries are counted by reason as well, and the report names the
reasons from the most to the least frequent, equally frequent ones in the order of
their characters, so it does not depend on the order in which they came up.
-/
import GuestSync.Direction

namespace GuestSync

/-- The counts of a run. -/
structure Tally where
  converted : Nat
  unchanged : Nat
  deleted : Nat
  tagged : Nat
  skipped : Nat
  reasons : List (String × Nat)
  deriving DecidableEq, Repr

namespace Tally

/-- The counts before a run. -/
def zero : Tally := ⟨0, 0, 0, 0, 0, []⟩

/-- One more entry for a reason. -/
def bump (reason : String) : List (String × Nat) → List (String × Nat)
  | [] => [(reason, 1)]
  | (r, n) :: rest => if r = reason then (r, n + 1) :: rest else (r, n) :: bump reason rest

/-- One more entry that was skipped. -/
def skip (t : Tally) (reason : String) : Tally :=
  { t with skipped := t.skipped + 1, reasons := bump reason t.reasons }

/-- The number of files that a run changed. -/
def operations (t : Tally) : Nat := t.converted + t.deleted

/-- Whether a reason is named before another: it is more frequent, or as frequent
and not behind it in the order of characters. -/
def before (a b : String × Nat) : Bool :=
  b.2 < a.2 || (a.2 == b.2 && a.1 ≤ b.1)

/-- The reasons in the order in which the report names them. -/
def ranked (t : Tally) : List (String × Nat) := t.reasons.mergeSort before

/-- The report on a run. -/
def summary (direction : Direction) (t : Tally) : String :=
  let breakdown :=
    if 0 < t.skipped then t.ranked.map fun (r, n) => " (" ++ r ++ ": " ++ toString n ++ ")"
    else []
  "\n=== " ++ direction.word ++ " summary ===\n" ++
    "Written:   " ++ toString t.converted ++ "\n" ++
    "Unchanged: " ++ toString t.unchanged ++ "\n" ++
    "Deleted:   " ++ toString t.deleted ++ "\n" ++
    (if direction.tagsDestination then "Tagged:    " ++ toString t.tagged ++ "\n" else "") ++
    "Skipped:   " ++ toString t.skipped ++ String.join breakdown ++ "\n" ++
    "\nTotal operations: " ++ toString t.operations ++ "\n"

end Tally

end GuestSync
