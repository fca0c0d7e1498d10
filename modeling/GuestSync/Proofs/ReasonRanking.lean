/-
# GuestSync.Proofs.ReasonRanking -- the reasons of a report in one order

Skipped entries are counted by reason, with one count for each reason that came up. The
order in which these counts are held means nothing: it may be the one in which the reasons
came up, or any other. The report sorts them, and its order tells any two of them apart:
the more frequent reason stands first, and of two equally frequent ones the smaller text.
So there is only one list that is in this order and has every count once. Sorting finds it
from wherever it starts, and what is printed depends on nothing but the counts.
-/
import GuestSync.Proofs.Counters

namespace GuestSync

namespace Tally

/-! ## One count for each reason -/

/-- No reason has two counts. -/
def Distinct (reasons : List (String × Nat)) : Prop := (reasons.map Prod.fst).Nodup

instance (reasons : List (String × Nat)) : Decidable (Distinct reasons) :=
  inferInstanceAs (Decidable (List.Nodup _))

section Bump

variable {reason : String} {reasons reasons' : List (String × Nat)}

theorem distinct_cons {r : String × Nat} :
    Distinct (r :: reasons) ↔ r.1 ∉ reasons.map Prod.fst ∧ Distinct reasons := by
  rw [Distinct, List.map_cons, List.nodup_cons]
  rfl

theorem bump_cons_self (n : Nat) (rest : List (String × Nat)) :
    bump reason ((reason, n) :: rest) = (reason, n + 1) :: rest := by
  rw [bump, if_pos rfl]

theorem bump_cons_of_ne {r : String × Nat} (h : r.1 ≠ reason) (rest : List (String × Nat)) :
    bump reason (r :: rest) = r :: bump reason rest := by
  rw [bump, if_neg h]

/-- The reasons that have a count are those that had one, and the one that came up. -/
theorem mem_reasons_bump {other : String} :
    other ∈ (bump reason reasons).map Prod.fst ↔
      other = reason ∨ other ∈ reasons.map Prod.fst := by
  induction reasons with
  | nil => simp [bump]
  | cons r rest ih =>
    obtain ⟨name, n⟩ := r
    by_cases hname : name = reason
    · subst hname
      simp [bump_cons_self]
    · rw [bump_cons_of_ne hname, List.map_cons, List.mem_cons, ih, List.map_cons, List.mem_cons]
      exact or_left_comm

theorem Distinct.bump (h : Distinct reasons) : Distinct (bump reason reasons) := by
  induction reasons with
  | nil => simp [Distinct, Tally.bump]
  | cons r rest ih =>
    obtain ⟨name, n⟩ := r
    obtain ⟨hnew, hrest⟩ := distinct_cons.mp h
    by_cases hname : name = reason
    · subst hname
      rw [bump_cons_self]
      exact distinct_cons.mpr ⟨hnew, hrest⟩
    · rw [bump_cons_of_ne hname]
      refine distinct_cons.mpr ⟨?_, ih hrest⟩
      rw [mem_reasons_bump]
      exact not_or.mpr ⟨hname, hnew⟩

theorem Distinct.perm (h : Distinct reasons) (hperm : reasons'.Perm reasons) :
    Distinct reasons' := (hperm.map Prod.fst).nodup_iff.mpr h

/-- The same counts in another order are the same counts after one more entry. -/
theorem Distinct.bump_perm (h : Distinct reasons) (hperm : reasons'.Perm reasons) :
    (Tally.bump reason reasons').Perm (Tally.bump reason reasons) := by
  induction hperm with
  | nil => exact .refl _
  | @cons r xs ys hxs ih =>
    obtain ⟨-, hys⟩ := distinct_cons.mp h
    obtain ⟨name, n⟩ := r
    by_cases hname : name = reason
    · subst hname
      rw [bump_cons_self, bump_cons_self]
      exact hxs.cons _
    · rw [bump_cons_of_ne hname, bump_cons_of_ne hname]
      exact (ih hys).cons _
  | swap r q rest =>
    obtain ⟨hnew, -⟩ := distinct_cons.mp h
    obtain ⟨name, n⟩ := r
    obtain ⟨name', n'⟩ := q
    have hne : name' ≠ name := fun heq => hnew (by simp [heq])
    -- At most one of the two is the reason that came up.
    by_cases hname : name = reason
    · subst hname
      rw [bump_cons_self, bump_cons_of_ne hne, bump_cons_self]
      exact .swap _ _ _
    · by_cases hname' : name' = reason
      · subst hname'
        rw [bump_cons_self, bump_cons_of_ne hname, bump_cons_self]
        exact .swap _ _ _
      · rw [bump_cons_of_ne hname', bump_cons_of_ne hname, bump_cons_of_ne hname,
          bump_cons_of_ne hname']
        exact .swap _ _ _
  | trans _ hys ihxs ihys => exact (ihxs (h.perm hys)).trans (ihys h)

/-- Two entries count the same whichever of them comes first. -/
theorem bump_comm (reason other : String) (reasons : List (String × Nat)) :
    (bump reason (bump other reasons)).Perm (bump other (bump reason reasons)) := by
  by_cases hsame : reason = other
  · rw [hsame]
  induction reasons with
  | nil =>
    -- New reasons get their counts at the end, in the order in which they come up.
    have hne : ((other, 1) : String × Nat).1 ≠ reason := Ne.symm hsame
    have hne' : ((reason, 1) : String × Nat).1 ≠ other := hsame
    rw [bump, bump, bump_cons_of_ne hne, bump_cons_of_ne hne']
    exact .swap _ _ _
  | cons r rest ih =>
    obtain ⟨name, n⟩ := r
    by_cases hname : name = other
    · subst hname
      rw [bump_cons_self, bump_cons_of_ne (Ne.symm hsame), bump_cons_of_ne (Ne.symm hsame),
        bump_cons_self]
    · by_cases hname' : name = reason
      · subst hname'
        rw [bump_cons_of_ne hname, bump_cons_self, bump_cons_self, bump_cons_of_ne hname]
      · rw [bump_cons_of_ne hname, bump_cons_of_ne hname', bump_cons_of_ne hname',
          bump_cons_of_ne hname]
        exact ih.cons _

end Bump

/-! ## The order of the report -/

/-- A reason is named in front of another: it is more frequent, or as frequent and a smaller
text. -/
def Precedes (a b : String × Nat) : Prop := b.2 < a.2 ∨ a.2 = b.2 ∧ a.1 < b.1

instance (a b : String × Nat) : Decidable (Precedes a b) := inferInstanceAs (Decidable (_ ∨ _))

section Order

variable {a b c : String × Nat}

theorem before_iff : before a b = true ↔ b.2 < a.2 ∨ a.2 = b.2 ∧ a.1 ≤ b.1 := by
  simp [before]

theorem before_trans (hab : before a b = true) (hbc : before b c = true) :
    before a c = true := by
  rw [before_iff] at hab hbc ⊢
  rcases hab with hab | ⟨hab, hname⟩
  · left
    omega
  · rcases hbc with hbc | ⟨hbc, hname'⟩
    · left
      omega
    · exact .inr ⟨hab.trans hbc, String.le_trans hname hname'⟩

theorem before_total (a b : String × Nat) : (before a b || before b a) = true := by
  rw [Bool.or_eq_true, before_iff, before_iff]
  have hname := String.le_total a.1 b.1
  have hcount := Nat.lt_trichotomy a.2 b.2
  tauto

theorem before_antisymm (hab : before a b = true) (hba : before b a = true) : a = b := by
  rw [before_iff] at hab hba
  have hcount : a.2 = b.2 := by omega
  refine Prod.ext ?_ hcount
  rcases hab with hab | ⟨-, hname⟩
  · omega
  · rcases hba with hba | ⟨-, hname'⟩
    · omega
    · exact String.le_antisymm hname hname'

theorem before_of_precedes (h : Precedes a b) : before a b = true := by
  rw [before_iff]
  exact h.imp_right fun h => ⟨h.1, Std.le_of_lt h.2⟩

theorem precedes_of_before (h : before a b = true) (hne : a.1 ≠ b.1) : Precedes a b := by
  rw [before_iff] at h
  exact h.imp_right fun h => ⟨h.1, Std.lt_of_le_of_ne h.2 hne⟩

end Order

/-- The list has every count of the tally once, in the order of the report. -/
structure Ranking (t : Tally) (listed : List (String × Nat)) : Prop where
  every : listed.Perm t.reasons
  ordered : listed.Pairwise Precedes

section Ranked

variable {t t' : Tally} {listed : List (String × Nat)}

theorem perm_ranked (t : Tally) : t.ranked.Perm t.reasons := List.mergeSort_perm _ _

theorem pairwise_ranked (t : Tally) : t.ranked.Pairwise fun a b => before a b = true := by
  unfold ranked
  apply List.pairwise_mergeSort
  · intro a b c
    exact before_trans
  · exact before_total

/-- Sorted counts are in the only order in which they are sorted. -/
theorem eq_ranked (hperm : listed.Perm t.reasons)
    (hsorted : listed.Pairwise fun a b => before a b = true) : listed = t.ranked :=
  List.Perm.eq_of_pairwise (fun _ _ _ _ => before_antisymm) hsorted (pairwise_ranked t)
    (hperm.trans (perm_ranked t).symm)

theorem ranked_congr (h : t'.reasons.Perm t.reasons) : t'.ranked = t.ranked :=
  eq_ranked ((perm_ranked t').trans h) (pairwise_ranked t')

/-- There is one ranking, and sorting finds it. -/
theorem ranking_iff (h : Distinct t.reasons) : t.Ranking listed ↔ listed = t.ranked := by
  constructor
  · intro hlisted
    exact eq_ranked hlisted.every (hlisted.ordered.imp before_of_precedes)
  · rintro rfl
    -- Sorting alone would let equal texts stand side by side.
    have hnames : t.ranked.Pairwise fun a b => a.1 ≠ b.1 :=
      List.pairwise_map.mp (h.perm (perm_ranked t))
    exact ⟨perm_ranked t, (pairwise_ranked t).imp₂ (fun _ _ => precedes_of_before) hnames⟩

end Ranked

/-! ## The text of the report -/

/-- A reason with its count. -/
def named (r : String × Nat) : String := " (" ++ r.1 ++ ": " ++ toString r.2 ++ ")"

/-- The lines of the report, with some reasons behind the number of skipped entries. -/
def reportLines (direction : Direction) (t : Tally) (listed : List (String × Nat)) :
    List String :=
  ["", "=== " ++ direction.word ++ " summary ===", "Written:   " ++ toString t.converted,
    "Unchanged: " ++ toString t.unchanged, "Deleted:   " ++ toString t.deleted] ++
  (if direction.tagsDestination then ["Tagged:    " ++ toString t.tagged] else []) ++
  ["Skipped:   " ++ toString t.skipped ++ String.join (listed.map named), "",
    "Total operations: " ++ toString t.operations]

theorem summary_eq_print (direction : Direction) (t : Tally) :
    t.summary direction =
      Session.print (t.reportLines direction (if 0 < t.skipped then t.ranked else [])) := by
  -- Three pieces of the text hold the end of one line and something of another.
  have htop : "\n=== " = "\n" ++ "=== " := by decide
  have htitle : " summary ===\n" = " summary ===" ++ "\n" := by decide
  have hbottom : "\nTotal operations: " = "\n" ++ "Total operations: " := by decide
  have hnames : ∀ f, f = named →
      (if 0 < t.skipped then t.ranked.map f else []) =
        (if 0 < t.skipped then t.ranked else []).map named := by
    rintro f rfl
    split <;> rfl
  unfold summary reportLines Session.print
  dsimp only
  rw [hnames _ ?same, htop, htitle, hbottom]
  case same => rfl
  cases direction <;>
    simp only [Direction.tagsDestination, Bool.false_eq_true, if_true, if_false, List.map_cons,
      List.map_nil, List.append_nil, List.cons_append, List.nil_append, String.join_cons,
      String.join_nil, String.append_assoc, String.empty_append, String.append_empty,
      -String.reduceAppend]

/-- The order in which the counts are held does not show. -/
theorem summary_perm (direction : Direction) {t : Tally} {order : List (String × Nat)}
    (h : order.Perm t.reasons) :
    ({ t with reasons := order } : Tally).summary direction = t.summary direction := by
  have hranked : ({ t with reasons := order } : Tally).ranked = t.ranked := ranked_congr h
  rw [summary_eq_print, summary_eq_print, hranked]
  rfl

end Tally

/-! ## The counts of a run -/

namespace Run

variable {mode : Mode} {q : Path} {a : Action} {result : Except Failure Unit} {s s' : Session}

theorem Outcome.distinct (h : Outcome mode q s a result s')
    (hs : Tally.Distinct s.tally.reasons) : Tally.Distinct s'.tally.reasons := by
  cases h with
  | skipped => exact hs.bump
  | _ => exact hs

theorem distinct_callAll (calls : List Call) (hs : Tally.Distinct s.tally.reasons) :
    Tally.Distinct (callAll mode calls s).tally.reasons := by
  induction calls generalizing s with
  | nil => exact hs
  | cons c calls ih =>
    have hone : Outcome mode c.subdir { s with disk := c.disk } c.action (call mode c s).1
        (call mode c s).2 := outcome_execute rfl
    exact ih (hone.distinct hs)

end Run

namespace Tally

section Skips

variable {words words' : List String} {reasons reasons' : List (String × Nat)}

/-- The counts after some more entries, with a reason for each. -/
def bumpAll (words : List String) (reasons : List (String × Nat)) : List (String × Nat) :=
  words.foldl (fun reasons reason => bump reason reasons) reasons

theorem foldl_skip (words : List String) (t : Tally) :
    words.foldl skip t =
      { t with skipped := t.skipped + words.length, reasons := bumpAll words t.reasons } := by
  induction words generalizing t with
  | nil => rfl
  | cons word words ih =>
    rw [List.foldl_cons, ih]
    simp only [skip, bumpAll, List.length_cons, List.foldl_cons, Nat.add_assoc, Nat.add_comm 1]

theorem Distinct.bumpAll_congr (h : Distinct reasons) (hperm : reasons'.Perm reasons) :
    (bumpAll words reasons').Perm (bumpAll words reasons) := by
  induction words generalizing reasons reasons' with
  | nil => exact hperm
  | cons word words ih => exact ih h.bump (h.bump_perm hperm)

theorem Distinct.bumpAll_perm (h : Distinct reasons) (hwords : words'.Perm words) :
    (bumpAll words' reasons).Perm (bumpAll words reasons) := by
  induction hwords generalizing reasons with
  | nil => exact .refl _
  | cons word _ ih => exact ih h.bump
  | swap word other rest =>
    have hdistinct : Distinct (Tally.bump other (Tally.bump word reasons)) := h.bump.bump
    exact hdistinct.bumpAll_congr (bump_comm word other reasons)
  | trans _ _ ih ih' => exact (ih h).trans (ih' h)

/-- **Which entry was skipped first does not show in the report**: the same reasons in another
order lead to the same text. -/
theorem summary_of_skips (direction : Direction) {t : Tally} (h : Distinct t.reasons)
    (hwords : words'.Perm words) :
    (words'.foldl skip t).summary direction = (words.foldl skip t).summary direction := by
  rw [foldl_skip, foldl_skip, hwords.length_eq]
  exact summary_perm
    (t := { t with skipped := t.skipped + words.length, reasons := bumpAll words t.reasons })
    direction (h.bumpAll_perm hwords)

end Skips

/-- **The report does not depend on the order of the counts.** Whatever actions are carried
out, on any disks, no reason has two counts. Let a tally have counts of that kind, as many as
there may be and equal ones among them. There is exactly one list that has every reason with
its count once and in which the more frequent reason stands in front of the less frequent one
and, of two equally frequent ones, the smaller text in front of the larger. In whichever order
the counts are held, the report has the same lines: it says the numbers and, behind that of
the skipped entries if there are any, the counts in the order of that list. -/
theorem summary_in_any_order :
    (∀ (mode : Mode) (d : Disk) (calls : List Run.Call),
      Distinct (Run.callAll mode calls (Session.start d)).tally.reasons) ∧
    ∀ (direction : Direction) (t : Tally), Distinct t.reasons →
      ∃ listed, (∀ l, t.Ranking l ↔ l = listed) ∧
        ∀ order, order.Perm t.reasons →
          ({ t with reasons := order } : Tally).summary direction =
            Session.print (t.reportLines direction (if 0 < t.skipped then listed else [])) := by
  refine ⟨fun mode d calls => Run.distinct_callAll calls (by simp [Distinct, Session.start, zero]),
    ?_⟩
  intro direction t hdistinct
  refine ⟨t.ranked, fun l => ranking_iff hdistinct, ?_⟩
  intro order horder
  rw [summary_perm direction horder, summary_eq_print]

end Tally

namespace Sample

/-- Counts two of which are equal. -/
def counts : List (String × Nat) :=
  [("unrecognized suffix", 2), ("not a file", 1), ("non-UTF-8 name", 1)]

end Sample

namespace Tally

/-- Held the other way round they are named in the same order. -/
theorem summary_in_any_order_sample :
    Distinct Sample.counts ∧ Sample.counts.reverse.Perm Sample.counts ∧
      (⟨0, 0, 0, 0, 4, Sample.counts.reverse⟩ : Tally).summary .pull =
        "\n=== pull summary ===\nWritten:   0\nUnchanged: 0\nDeleted:   0\n" ++
          "Skipped:   4 (unrecognized suffix: 2) (non-UTF-8 name: 1) (not a file: 1)\n" ++
          "\nTotal operations: 0\n" := by
  have hdistinct : Distinct Sample.counts := by decide
  have hperm := Sample.counts.reverse_perm
  refine ⟨hdistinct, hperm, ?_⟩
  obtain ⟨listed, hlisted, hsummary⟩ :=
    summary_in_any_order.2 .pull ⟨0, 0, 0, 0, 4, Sample.counts⟩ hdistinct
  have hranking : (⟨0, 0, 0, 0, 4, Sample.counts⟩ : Tally).Ranking
      [("unrecognized suffix", 2), ("non-UTF-8 name", 1), ("not a file", 1)] :=
    ⟨by decide, by decide⟩
  obtain rfl := (hlisted _).mp hranking
  rw [hsummary _ hperm]
  decide +kernel

end Tally

end GuestSync
