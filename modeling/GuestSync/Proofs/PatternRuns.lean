/-
# GuestSync.Proofs.PatternRuns -- patterns that never go back

A repetition takes as many octets as it can and gives them back one by one while
what comes next fails. Where nothing that comes next can start with an octet of
the class, giving back is of no use: the run of octets ends where it ends in the
text. `Cursor.past` is the place behind such a run, and places behind runs are
all that is needed to follow a pattern of this kind.
-/
import GuestSync.Header.Pattern
import Mathlib

namespace GuestSync

/-! ## Places behind a run of octets -/

namespace Cursor

/-- The place behind the octets of a class. -/
def past (holds : UInt8 → Bool) (c : Cursor) : Cursor :=
  ⟨(c.rest.takeWhile holds).getLast?.or c.before, c.rest.dropWhile holds,
    c.taken + (c.rest.takeWhile holds).length⟩

variable {holds holds' : UInt8 → Bool}

theorem past_cons {b : UInt8} (h : holds b) (before : Option UInt8) (r : Bytes) (taken : Nat) :
    (⟨before, b :: r, taken⟩ : Cursor).past holds =
      (⟨some b, r, taken + 1⟩ : Cursor).past holds := by
  have hlast : (b :: r.takeWhile holds).getLast? = (r.takeWhile holds).getLast?.or (some b) := by
    rw [List.getLast?_cons, Option.or_some]
  simp [past, h, hlast, Nat.add_comm, Nat.add_left_comm]

theorem past_cons_of_not {b : UInt8} (h : ¬ holds b) (before : Option UInt8) (r : Bytes)
    (taken : Nat) : (⟨before, b :: r, taken⟩ : Cursor).past holds = ⟨before, b :: r, taken⟩ := by
  simp [past, h]

theorem past_of_takeWhile_nil {c : Cursor} (h : c.rest.takeWhile holds = []) :
    c.past holds = c := by
  have hrest : c.rest.dropWhile holds = c.rest := by
    have hsplit := List.takeWhile_append_dropWhile (p := holds) (l := c.rest)
    rwa [h, List.nil_append] at hsplit
  simp [past, h, hrest]

/-- Octets of a smaller class first, and then the others. -/
theorem past_past (h : ∀ b, holds b → holds' b) (c : Cursor) :
    (c.past holds).past holds' = c.past holds' := by
  obtain ⟨before, rest, taken⟩ := c
  induction rest generalizing before taken with
  | nil => rfl
  | cons b r ih =>
    by_cases hb : holds b
    · rw [past_cons hb, ih, past_cons (h b hb)]
    · rw [past_cons_of_not hb]

/-- What is taken and what is left make up the text. -/
theorem past_length (c : Cursor) (holds : UInt8 → Bool) :
    (c.past holds).taken + (c.past holds).rest.length = c.taken + c.rest.length := by
  have hsplit := congrArg List.length (List.takeWhile_append_dropWhile (p := holds) (l := c.rest))
  simp only [past, List.length_append] at hsplit ⊢
  omega

end Cursor

namespace Pattern

variable {β : Type}

/-! ## No second try -/

/-- **Repetition gives nothing back.** If what comes next cannot start with an octet
of the class then only the far end of the run counts. `P` is what is known of the
octet before a place. -/
theorem attemptMany_eq {holds : UInt8 → Bool} (next : Cursor → Option β) (P : Option UInt8 → Prop)
    (hstep : ∀ b, holds b → P (some b))
    (hstop : ∀ before b r taken, P before → holds b → next ⟨before, b :: r, taken⟩ = none)
    (c : Cursor) (hc : P c.before) :
    attemptMany holds next c.before c.taken c.rest = next (c.past holds) := by
  obtain ⟨before, rest, taken⟩ := c
  -- The induction is on the octets behind the place, for whatever stands before it.
  induction rest generalizing before taken with
  | nil => rfl
  | cons b r ih =>
    dsimp only at hc ⊢
    unfold attemptMany
    by_cases hb : holds b
    · rw [if_pos hb, ih (some b) (taken + 1) (hstep b hb), Cursor.past_cons hb]
      split
      · next x hx => exact hx.symm
      · next hnone => rw [hstop before b r taken hc hb, hnone]
    · rw [if_neg hb, Cursor.past_cons_of_not hb]

theorem attempt_either (p q : Pattern) (next : Cursor → List Span → Option β) (c : Cursor)
    (kept : List Span) :
    (either p q).attempt next c kept = (p.attempt next c kept).or (q.attempt next c kept) := by
  rw [attempt]
  cases p.attempt next c kept <;> rfl

/-! ## Going on behind a match -/

/-- The octets that a match has taken are passed over. -/
theorem matchesFrom_skip (p : Pattern) (before : Option UInt8) (xs rest : Bytes) :
    p.matchesFrom xs.length before (xs ++ rest) = p.matchesFrom 0 (xs.getLast?.or before) rest := by
  induction xs generalizing before with
  | nil => rfl
  | cons x xs ih =>
    rw [List.length_cons, List.cons_append, matchesFrom, ih, List.getLast?_cons]
    cases xs.getLast? <;> rfl

end Pattern

end GuestSync
