/-
# GuestSync.Proofs.PlanDecisions -- the plan of a pass, entry by entry

A plan is made in one sweep over the source entries that carries along the names it
expects, and the deletions look at those names. So what becomes of an entry might depend
on the entries before it. It does not: a source entry is decided by its own name and
kind, and a destination entry by its own and by the source files there are. Both are said
here without the sweep, for any lists of entries, also such as no directory can have.
-/
import GuestSync.Sync.Plan
import Mathlib.Data.List.Forall2
import Mathlib.Data.List.Zip

namespace GuestSync

namespace Entry

/-- What is decided for a source entry. It is converted under its name if that is a text
with a rule and the entry is a file. Otherwise it is skipped for the first reason that
there is. -/
inductive Decided (rules : RuleTable) (destination : Path) (e : Entry) : Action → Prop
  | convert {name : String} {rule : Rule} (text : e.name = some name)
      (recognized : rules.forName? name = some rule) (file : e.kind = .file) :
      Decided rules destination e
        (.convert e.path (destination.join (Path.ofString name)) rule)
  | nameNotText (noText : e.name = none) : Decided rules destination e (.skip e.path .nameNotText)
  | unrecognizedSuffix {name : String} (text : e.name = some name)
      (unrecognized : rules.forName? name = none) :
      Decided rules destination e (.skip e.path .unrecognizedSuffix)
  | notAFile {name : String} (text : e.name = some name)
      (recognized : rules.recognizes name = true) (noFile : e.kind ≠ .file) :
      Decided rules destination e (.skip e.path .notAFile)

/-- A destination entry that has lost its source: it is a file or a broken link with a
recognized name, and no source file has that name. -/
def Orphaned (rules : RuleTable) (sources : List Entry) (e : Entry) : Prop :=
  (e.kind = .file ∨ e.kind = .broken) ∧
    ∃ name ∈ e.name, rules.recognizes name = true ∧
      ∀ s ∈ sources, s.kind = .file → s.name ≠ some name

instance (rules : RuleTable) (sources : List Entry) (e : Entry) :
    Decidable (e.Orphaned rules sources) := inferInstanceAs (Decidable (_ ∧ _))

section Decisions

variable {rules : RuleTable} {destination : Path} {sources sources' : List Entry} {e : Entry}

theorem recognizes_of_forName? {name : String} {rule : Rule}
    (h : rules.forName? name = some rule) : rules.recognizes name = true := by
  rw [RuleTable.recognizes, h, Option.isSome_some]

/-- The action for a source entry is the one that is decided. -/
theorem decided_iff {a : Action} :
    e.Decided rules destination a ↔ a = e.sourceAction rules destination := by
  unfold sourceAction verdict
  constructor
  · intro h
    cases h with
    | convert text recognized file => simp [text, recognized, file]
    | nameNotText noText => simp [noText]
    | unrecognizedSuffix text unrecognized => simp [text, unrecognized]
    | notAFile text recognized noFile =>
      obtain ⟨rule, hrule⟩ := Option.isSome_iff_exists.mp recognized
      simp [text, hrule, noFile]
  · rintro rfl
    cases htext : e.name with
    | none => exact .nameNotText htext
    | some name =>
      cases hrule : rules.forName? name with
      | none => simpa [hrule] using Decided.unrecognizedSuffix htext hrule
      | some rule =>
        by_cases hfile : e.kind = .file
        · simpa [hrule, hfile] using Decided.convert htext hrule hfile
        · simpa [hrule, hfile] using Decided.notAFile htext (recognizes_of_forName? hrule) hfile

theorem expectedName?_eq_some_iff {name : String} :
    e.expectedName? rules = some name ↔
      e.kind = .file ∧ e.name = some name ∧ rules.recognizes name = true := by
  unfold expectedName? verdict RuleTable.recognizes
  cases e.name with
  | none => simp
  | some name' =>
    cases hrule : rules.forName? name' with
    | none =>
      simp only [hrule, reduceCtorEq, Option.some.injEq, false_iff, not_and]
      rintro - rfl
      simp [hrule]
    | some rule =>
      by_cases hfile : e.kind = .file
      · simp only [hrule, hfile, if_true, Option.some.injEq, true_and, iff_self_and]
        rintro rfl
        simp [hrule]
      · simp [hrule, hfile]

/-- A plan expects the recognized names of the source files. -/
theorem mem_expected_iff {name : String} :
    name ∈ (Plan.ofSource rules destination sources).expected ↔
      rules.recognizes name = true ∧ ∃ s ∈ sources, s.kind = .file ∧ s.name = some name := by
  rw [Plan.mem_ofSource_expected]
  constructor
  · rintro ⟨s, hs, hexpected⟩
    obtain ⟨hfile, hname, hrule⟩ := expectedName?_eq_some_iff.mp hexpected
    exact ⟨hrule, s, hs, hfile, hname⟩
  · rintro ⟨hrule, s, hs, hfile, hname⟩
    exact ⟨s, hs, expectedName?_eq_some_iff.mpr ⟨hfile, hname, hrule⟩⟩

variable (destination) in
/-- Among the names that a plan expects, a destination entry is stale exactly if it has
lost its source. -/
theorem isStale_ofSource_iff :
    e.isStale rules (Plan.ofSource rules destination sources).expected = true ↔
      e.Orphaned rules sources := by
  unfold isStale Orphaned
  cases e.name with
  | none => simp
  | some name =>
    simp only [Bool.and_eq_true, Bool.or_eq_true, beq_iff_eq, Bool.not_eq_true',
      List.contains_eq_mem, decide_eq_false_iff_not, Option.mem_some_iff, exists_eq_left',
      and_assoc]
    refine and_congr_right fun _ => and_congr_right fun hrule => ?_
    rw [mem_expected_iff]
    simp [hrule]

/-- Whether an entry has lost its source does not depend on the order of the sources. -/
theorem orphaned_perm (h : sources'.Perm sources) :
    e.Orphaned rules sources' ↔ e.Orphaned rules sources := by
  simp only [Orphaned, h.mem_iff]

end Decisions

end Entry

namespace Plan

section Decisions

variable {rules : RuleTable} {destination : Path} {sources sources' : List Entry}

/-- What is deleted are the destination entries that have lost their source. -/
theorem deletions_ofSource (destinations : List Entry) :
    (ofSource rules destination sources).deletions rules destinations =
      (destinations.filter (Entry.Orphaned rules sources ·)).map fun e => .delete e.path := by
  induction destinations with
  | nil => rfl
  | cons e es ih =>
    unfold deletions Entry.destinationAction? at ih ⊢
    have hstale : e.isStale rules (ofSource rules destination sources).expected = true ↔
        e.Orphaned rules sources := Entry.isStale_ofSource_iff destination
    by_cases horphaned : e.Orphaned rules sources
    · simp [hstale.mpr horphaned, horphaned, ih]
    · simp [mt hstale.mp horphaned, horphaned, ih]

/-- **The plan of a pass** is decided entry by entry. For any rules and any entries on
either side there is one action for every source entry, in their order, and it is the
only one that the entry's own name and kind decide; what is deleted are the destination
entries that have lost their source, in their order. In another order of the source
entries every entry gets the same action, and the same is deleted. -/
theorem decided_by_entry (rules : RuleTable) (destination : Path) {sources sources' : List Entry}
    (destinations : List Entry) (hperm : sources'.Perm sources) :
    List.Forall₂ (Entry.Decided rules destination) sources
        (ofSource rules destination sources).actions ∧
      (∀ (e : Entry) (a b : Action), e.Decided rules destination a → e.Decided rules destination b →
        a = b) ∧
      (ofSource rules destination sources).deletions rules destinations =
        (destinations.filter (Entry.Orphaned rules sources ·)).map (fun e => .delete e.path) ∧
      (sources'.zip (ofSource rules destination sources').actions).Perm
        (sources.zip (ofSource rules destination sources).actions) ∧
      (ofSource rules destination sources').deletions rules destinations =
        (ofSource rules destination sources).deletions rules destinations := by
  refine ⟨?_, ?_, deletions_ofSource destinations, ?_, ?_⟩
  · rw [ofSource_actions, List.forall₂_map_right_iff, List.forall₂_same]
    intro e _
    exact Entry.decided_iff.mpr rfl
  · intro e a b ha hb
    rw [Entry.decided_iff.mp ha, Entry.decided_iff.mp hb]
  · -- Each entry stands beside its own action.
    have hzip : ∀ es : List Entry, es.zip (ofSource rules destination es).actions =
        es.map fun e => (e, e.sourceAction rules destination) := by
      intro es
      rw [ofSource_actions, List.map_prod_left_eq_zip]
    rw [hzip, hzip]
    exact hperm.map _
  · rw [deletions_ofSource, deletions_ofSource]
    simp only [Entry.orphaned_perm hperm]

end Decisions

end Plan

namespace Sample

/-- Source entries: a file, a directory with a recognized name, a file that no rule is for
and one whose name is no text. -/
def listedSources : List Entry :=
  [⟨Path.ofString "s/a.c", some "a.c", .file⟩, ⟨Path.ofString "s/b.c", some "b.c", .directory⟩,
    ⟨Path.ofString "s/notes", some "notes", .file⟩, ⟨Path.ofString "s/x", none, .file⟩]

/-- Destination entries, among them files under the names of a source file and of a source
directory. -/
def listedDestinations : List Entry :=
  [⟨Path.ofString "d/a.c", some "a.c", .file⟩, ⟨Path.ofString "d/b.c", some "b.c", .file⟩,
    ⟨Path.ofString "d/d.h", some "d.h", .broken⟩, ⟨Path.ofString "d/e.c", some "e.c", .directory⟩,
    ⟨Path.ofString "d/old", some "old", .file⟩]

end Sample

/-- Of the destination entries go the one under the name of a source directory and the
broken link, whichever way round the sources come. -/
theorem Plan.decided_by_entry_sample :
    Sample.listedSources.reverse.Perm Sample.listedSources ∧
      (Plan.ofSource .standard (Path.ofString "d") Sample.listedSources.reverse).deletions .standard
          Sample.listedDestinations =
        [.delete (Path.ofString "d/b.c"), .delete (Path.ofString "d/d.h")] := by
  have hperm := Sample.listedSources.reverse_perm
  obtain ⟨-, -, hdeletions, -, hsame⟩ :=
    Plan.decided_by_entry .standard (Path.ofString "d") Sample.listedDestinations hperm
  refine ⟨hperm, ?_⟩
  rw [hsame, hdeletions]
  decide +kernel

end GuestSync
