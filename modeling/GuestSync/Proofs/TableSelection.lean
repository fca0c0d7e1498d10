/-
# GuestSync.Proofs.TableSelection -- bounded tables in the order of their header

A bounded table first drops the members whose names start otherwise and then looks for its two
bounds among the rest. Where the names of the bounds start as the names of the table do, it may
as well look for them among all members of the header and drop the others afterwards: a bound
is there before if it is there after, its first place moves down by as many members as were
dropped in front of it, and so the members between the two bounds are the same.
-/
import GuestSync.Header.Table
import Mathlib.Data.List.Basic

namespace GuestSync

namespace Member

/-- Whether a member of the name is there. -/
def Occurs (name : String) (members : List Member) : Prop := ∃ m ∈ members, m.name = name

instance (name : String) (members : List Member) : Decidable (Occurs name members) :=
  List.decidableBEx _ _

/-- How many members stand in front of the first one of the name. -/
def place (name : String) (members : List Member) : Nat := members.findIdx (·.name == name)

/-- The members from the first one of a name through the first one of another. -/
def between (first last : String) (members : List Member) : List Member :=
  (members.take (place last members + 1)).drop (place first members)

variable {name first last : String} {members : List Member}

theorem indexOf_of_occurs (h : Occurs name members) :
    indexOf members name = .ok (place name members) := by
  have hlt : place name members < members.length :=
    List.findIdx_lt_length.mpr (by simpa [Occurs] using h)
  have hfind : members.findIdx? (·.name == name) = some (place name members) :=
    List.findIdx?_eq_some_iff_findIdx_eq.mpr ⟨hlt, rfl⟩
  rw [indexOf, hfind]

theorem indexOf_of_not_occurs (h : ¬ Occurs name members) :
    indexOf members name = .error (.missingMember name) := by
  have hfind : members.findIdx? (·.name == name) = none := by
    simpa [List.findIdx?_eq_none_iff, Occurs] using h
  rw [indexOf, hfind]

/-- A slice is what stands between two members, or it names the one that is missing. -/
theorem slice_eq (first last : String) (members : List Member) :
    slice members first last =
      if ¬ Occurs first members then .error (.missingMember first)
      else if ¬ Occurs last members then .error (.missingMember last)
      else .ok (between first last members) := by
  unfold slice
  by_cases hfirst : Occurs first members
  · rw [indexOf_of_occurs hfirst, if_neg (not_not.mpr hfirst)]
    by_cases hlast : Occurs last members
    · rw [indexOf_of_occurs hlast, if_neg (not_not.mpr hlast), between, List.drop_take]
      rfl
    · rw [indexOf_of_not_occurs hlast, if_pos hlast]
      rfl
  · rw [indexOf_of_not_occurs hfirst, if_pos hfirst]
    rfl

/-- Nothing stands between two members in the wrong order. -/
theorem between_eq_nil (h : place last members < place first members) :
    between first last members = [] := by
  rw [between, List.drop_eq_nil_iff, List.length_take]
  omega

/-! ## Dropping members in between -/

section Filter

variable {α : Type} {p q : α → Bool}

theorem take_filter (l : List α) (k : Nat) :
    (l.filter q).take ((l.take k).filter q).length = (l.take k).filter q := by
  have hsplit : l.filter q = (l.take k).filter q ++ (l.drop k).filter q := by
    rw [← List.filter_append, List.take_append_drop]
  rw [hsplit, List.take_left]

theorem drop_filter (l : List α) (k : Nat) :
    (l.filter q).drop ((l.take k).filter q).length = (l.drop k).filter q := by
  have hsplit : l.filter q = (l.take k).filter q ++ (l.drop k).filter q := by
    rw [← List.filter_append, List.take_append_drop]
  rw [hsplit, List.drop_left]

/-- Where elements are dropped that are not looked for, the first place of what is looked for
moves down by those that were dropped in front of it. -/
theorem findIdx_filter (h : ∀ a, p a → q a) (l : List α) :
    (l.filter q).findIdx p = ((l.take (l.findIdx p)).filter q).length := by
  induction l with
  | nil => rfl
  | cons a l ih =>
    by_cases hp : p a
    · rw [List.filter_cons_of_pos (h a hp), List.findIdx_cons, List.findIdx_cons, hp]
      rfl
    · have hskip : (a :: l).findIdx p = l.findIdx p + 1 := by simp [List.findIdx_cons, hp]
      rw [hskip, List.take_succ_cons]
      by_cases hq : q a
      · rw [List.filter_cons_of_pos hq, List.filter_cons_of_pos hq, List.length_cons, ← ih]
        simp [List.findIdx_cons, hp]
      · rw [List.filter_cons_of_neg hq, List.filter_cons_of_neg hq, ih]

/-- One more element is taken if it is the one that was looked for. -/
theorem findIdx_filter_succ (h : ∀ a, p a → q a) {l : List α} (hp : ∃ a ∈ l, p a) :
    (l.filter q).findIdx p + 1 = ((l.take (l.findIdx p + 1)).filter q).length := by
  have hlt : l.findIdx p < l.length := List.findIdx_lt_length.mpr hp
  have hat : q l[l.findIdx p] := h _ List.findIdx_getElem
  rw [findIdx_filter h, List.take_succ_eq_append_getElem hlt, List.filter_append,
    List.length_append, List.filter_cons_of_pos hat]
  rfl

end Filter

section Matching

variable {keep : Member → Bool}

theorem occurs_filter (h : ∀ m : Member, m.name = name → keep m) :
    Occurs name (members.filter keep) ↔ Occurs name members := by
  constructor
  · rintro ⟨m, hm, hname⟩
    exact ⟨m, (List.mem_filter.mp hm).1, hname⟩
  · rintro ⟨m, hm, hname⟩
    exact ⟨m, List.mem_filter.mpr ⟨hm, h m hname⟩, hname⟩

/-- **Dropping members commutes with cutting out a part**, as long as the bounds are not
dropped. -/
theorem between_filter (hfirst : ∀ m : Member, m.name = first → keep m)
    (hlast : ∀ m : Member, m.name = last → keep m) (hoccurs : Occurs last members) :
    between first last (members.filter keep) = (between first last members).filter keep := by
  have hstart : place first (members.filter keep) =
      ((members.take (place first members)).filter keep).length :=
    findIdx_filter (by simpa using hfirst) members
  have hstop : place last (members.filter keep) + 1 =
      ((members.take (place last members + 1)).filter keep).length :=
    findIdx_filter_succ (by simpa using hlast) (by simpa [Occurs] using hoccurs)
  unfold between
  rw [hstop, take_filter, hstart]
  by_cases hle : place first members ≤ place last members + 1
  · have htake : members.take (place first members) =
        (members.take (place last members + 1)).take (place first members) := by
      rw [List.take_take, Nat.min_eq_left hle]
    rw [htake, drop_filter]
  · -- The first bound stands behind the last, so nothing is left on either side.
    have hbefore : members.take (place last members + 1) <+: members.take (place first members) :=
      List.take_prefix_take_left (by omega)
    rw [List.drop_of_length_le (hbefore.filter keep).length_le,
      List.drop_of_length_le (by rw [List.length_take]; omega), List.filter_nil]

end Matching

end Member

/-! ## Bounded tables -/

namespace Table

open Member

/-- The table runs from one name through another, and both start as its names do. -/
structure BoundedBy (t : Table) (first last : String) : Prop where
  range : t.range = some (first, last)
  first_starts : t.start.toList <+: first.toList
  last_starts : t.start.toList <+: last.toList

theorem startsWith_of_name {text name : String} (h : text.toList <+: name.toList) (m : Member)
    (hm : m.name = name) : startsWith text m = true := by
  rwa [startsWith, hm, List.isPrefixOf_iff_prefix]

/-- **A table may be cut out of the whole header.** Both tables of the script header run between
names that start as theirs do. Let a table be so bounded, and let there be any members, with
names repeated or not. The selection fails exactly if a bound is missing among all of them, and
it names the first bound if that one is missing and the last otherwise. If both are there, it
has the members whose names start as those of the table do, in order, out of those from the
first member named as the first bound through the first one named as the last; and none if that
one stands before the other. -/
theorem select_between :
    (∀ t ∈ Header.script.tables, ∃ first last, t.BoundedBy first last) ∧
      ∀ (t : Table) (first last : String), t.BoundedBy first last → ∀ members : List Member,
        (∀ f, t.select members = .error f ↔
          ¬ Occurs first members ∧ f = .missingMember first ∨
            Occurs first members ∧ ¬ Occurs last members ∧ f = .missingMember last) ∧
        (Occurs first members → Occurs last members →
          t.select members = .ok ((between first last members).filter (startsWith t.start)) ∧
            (place last members < place first members → t.select members = .ok [])) := by
  constructor
  · intro t ht
    obtain rfl | rfl : t = ⟨"script.csv", "sm", some ("smRoman", "smUninterp")⟩ ∨
        t = ⟨"region.csv", "ver", some ("verUS", "verGreenland")⟩ := by
      simpa [Header.tables] using ht
    · exact ⟨"smRoman", "smUninterp", rfl, by decide, by decide⟩
    · exact ⟨"verUS", "verGreenland", rfl, by decide, by decide⟩
  · intro t first last ht members
    have hfirst := startsWith_of_name ht.first_starts
    have hlast := startsWith_of_name ht.last_starts
    have hselect : t.select members =
        if ¬ Occurs first members then .error (.missingMember first)
        else if ¬ Occurs last members then .error (.missingMember last)
        else .ok (between first last (members.filter (startsWith t.start))) := by
      rw [select, ht.range]
      dsimp only
      rw [slice_eq]
      simp only [occurs_filter hfirst, occurs_filter hlast]
    rw [hselect]
    refine ⟨?_, ?_⟩
    · intro f
      by_cases hf : Occurs first members <;> by_cases hl : Occurs last members <;>
        simp [hf, hl, eq_comm]
    · intro hf hl
      rw [if_neg (not_not.mpr hf), if_neg (not_not.mpr hl), between_filter hfirst hlast hl]
      refine ⟨rfl, fun hlt => ?_⟩
      rw [between_eq_nil hlt, List.filter_nil]

/-- Members of another table and repeated names in between, and the bounds in the wrong
order. -/
theorem select_between_sample :
    (⟨"script.csv", "sm", some ("smRoman", "smUninterp")⟩ : Table).select
        [⟨"smAll", 9⟩, ⟨"smRoman", 0⟩, ⟨"verUS", 0⟩, ⟨"smRoman", 1⟩, ⟨"smUninterp", 32⟩,
          ⟨"smUninterp", 33⟩] =
      .ok [⟨"smRoman", 0⟩, ⟨"smRoman", 1⟩, ⟨"smUninterp", 32⟩] ∧
    (⟨"script.csv", "sm", some ("smRoman", "smUninterp")⟩ : Table).select
        [⟨"smUninterp", 32⟩, ⟨"verUS", 0⟩, ⟨"smRoman", 0⟩, ⟨"smUninterp", 33⟩] = .ok [] := by
  have hbounded : (⟨"script.csv", "sm", some ("smRoman", "smUninterp")⟩ : Table).BoundedBy
      "smRoman" "smUninterp" := ⟨rfl, by decide, by decide⟩
  constructor
  · rw [((select_between.2 _ _ _ hbounded _).2 (by decide) (by decide)).1]
    decide
  · exact ((select_between.2 _ _ _ hbounded _).2 (by decide) (by decide)).2 (by decide)

end Table

end GuestSync
