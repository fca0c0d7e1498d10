/-
# GuestSync.Proofs.Idempotence -- running again at once

A run that gets through leaves the destination at rest: the directories are there,
and settling an entry once more would leave it as it is. From a disk at rest no pass
changes anything, converts anything or deletes anything, and the next pass starts
from the same disk. So a second run at once finds all done that the first one did.
Its counts are those of the first with every converted file found unchanged and no
deletions, because both have the accounts of the same source entries, and for the
same reason it makes the same tag calls.
-/
import GuestSync.Proofs.Accounts
import GuestSync.Proofs.Convergence

namespace GuestSync

open Disk

/-- Passes over the subdirectories would find everything done. -/
structure Mode.Rested (mode : Mode) (rules : RuleTable) (A B : Location) (qs : List Path)
    (v : Location → Option Node) : Prop where
  ways : ∀ q ∈ qs, ∀ m, m <+: B ++ q.names → v m = some .directory
  entries : ∀ q ∈ qs, ∀ n, (∀ r ∈ qs, ¬ B ++ q.names ++ [n] <+: B ++ r.names) →
    mode.settled rules n (v (A ++ q.names ++ [n])) (v (B ++ q.names ++ [n])) =
      v (B ++ q.names ++ [n])

namespace Mode

/-! ## One entry -/

section Entry

variable {mode : Mode} {rules : RuleTable} {n : Name} {source old : Option Node}

/-- An entry that is settled already counts as unchanged if it is converted again. -/
theorem converted_of_settled (h : mode.settled rules n source old = old) (t : Tally) :
    (mode.countSource rules n source old t).converted = t.converted := by
  unfold countSource
  split
  · next rule content hrule hsource =>
    cases hconvert : convert rule.kind mode.direction content with
    | error fault => rfl
    | ok output =>
      have hold : contentOf old = some output := by
        rw [← h, settled_of_output hrule hsource hconvert]
        rfl
      simp [Tally.deal, hold]
  · rfl

/-- An entry that is settled already is not stale. -/
theorem not_stale_of_settled (h : mode.settled rules n source old = old) :
    ¬ rules.Stale n source old := by
  rintro ⟨hrule, hsource, hold⟩
  obtain ⟨rule, hrule⟩ := Option.isSome_iff_exists.mp hrule
  rw [settled_of_no_content hrule hsource, if_pos hold] at h
  subst h
  simp [contentOf] at hold

end Entry

/-! ## Passes from a disk at rest -/

section Passes

variable {mode : Mode} {rules : RuleTable} {S T : Path} {A B : Location} {qs ps : List Path}
variable {d e f : Disk} {t u : Tally} {q : Path} {v v' : Location → Option Node}

/-- What passes leave is at rest: settling twice is settling once. -/
theorem Synced.rested (h : mode.Synced rules A B qs v v')
    (hsource : ∀ x, v' (A ++ x) = v (A ++ x)) : mode.Rested rules A B qs v' := by
  refine ⟨h.ways, ?_⟩
  intro q hq n hway
  rw [h.entries q hq n hway, List.append_assoc A, hsource, ← List.append_assoc, settled_idem]

/-- Also a directory that a subdirectory made in place of an entry is settled, if the
entry can be. -/
theorem Rested.settled (h : mode.Rested rules A B qs d.node?) (hq : q ∈ qs)
    (hfits : d.Fits mode rules A B q) (n : Name) :
    mode.settled rules n (d.node? (A ++ q.names ++ [n])) (d.node? (B ++ q.names ++ [n])) =
      d.node? (B ++ q.names ++ [n]) := by
  by_cases hway : ∃ r ∈ qs, B ++ q.names ++ [n] <+: B ++ r.names
  · obtain ⟨r, hr, hp⟩ := hway
    have hready := hfits.ready n
    rw [h.ways r hr _ hp] at hready ⊢
    exact settled_directory hready
  · push Not at hway
    exact h.entries q hq n hway

/-- **A pass over a disk at rest changes nothing.** -/
theorem Rested.passed (h : mode.Rested rules A B qs d.node?) (hq : q ∈ qs)
    (hfits : d.Fits mode rules A B q)
    (hpass : mode.Passed rules (A ++ q.names) (B ++ q.names) d e) : e.node? = d.node? := by
  funext m
  by_cases hway : m <+: B ++ q.names
  · rw [hpass.way m hway, h.ways q hq m hway]
  by_cases hentry : ∃ n, m = B ++ q.names ++ [n]
  · obtain ⟨n, rfl⟩ := hentry
    rw [hpass.entries, h.settled hq hfits]
  · apply hpass.others m hway
    intro n heq
    exact hentry ⟨n, heq⟩

/-- Passes over a disk at rest change nothing, convert nothing and delete nothing. -/
theorem Passes.idle (h : mode.Passes rules A B d t ps f u) (hps : ∀ p ∈ ps, p ∈ qs)
    (hrest : mode.Rested rules A B qs d.node?) :
    f.node? = d.node? ∧ u.converted = t.converted ∧ u.deleted = t.deleted := by
  induction h with
  | nil => exact ⟨rfl, rfl, rfl⟩
  | @cons d e f t u q ps ms fits passed rest ih =>
    have hq := hps q (by simp)
    have hview := hrest.passed hq fits passed
    obtain ⟨hend, hconverted, hdeleted⟩ :=
      ih (fun p hp => hps p (by simp [hp])) (by rwa [hview])
    have hstale := fun n => not_stale_of_settled (hrest.settled hq fits n)
    refine ⟨hend.trans hview, ?_, ?_⟩
    · rw [hconverted]
      exact countPass_keeps Tally.converted
        (fun n => converted_of_settled (hrest.settled hq fits n)) hstale _ ms
    · rw [hdeleted]
      exact countPass_keeps Tally.deleted
        (fun n => deleted_countSource mode rules n _ _) hstale _ ms

end Passes

end Mode

/-! ## The second run -/

section Again

variable {layout : Layout} {mode : Mode} {d : Disk} {A B : Location} {s : Session}

/-- **Running again at once.** On a disk of directories and regular files, between two
roots apart from each other and with a tagger that refuses nothing, a run that got
through gets through again from the disk that it left. Then it converts and deletes
nothing, finds every file unchanged that it converted or found unchanged before,
skips the same entries for the same reasons, makes the same tag calls in the same
order, and leaves the disk as it is. -/
theorem sync_idempotent (hd : d.Plain) (hcheck : layout.check = .ok ())
    (hsource : d.DirectoryAt (layout.sourceRoot mode.direction) A)
    (hdestination : d.DirectoryAt (layout.destinationRoot mode.direction) B)
    (hAB : ¬ A <+: B) (hBA : ¬ B <+: A) (hdry : mode.dryRun = false)
    (hwilling : mode.tagger.Willing)
    (hrun : (Run.sync layout mode).run (Session.start d) = (.ok (), s)) :
    ∃ s', (Run.sync layout mode).run (Session.start s.disk) = (.ok (), s') ∧
      s'.tally = { s.tally with
        converted := 0
        unchanged := s.tally.converted + s.tally.unchanged
        deleted := 0 } ∧
      s'.tagCalls = s.tagCalls ∧ s'.disk.start = s.disk.start ∧
      ∀ m, s'.disk.node? m = s.disk.node? m := by
  have hinner := Path.inner_of_check hcheck
  have hsides := hd.sides hsource hdestination hAB hBA
  have hpasses := Run.passes_of_sync hdry hcheck hsides hrun
  have hsame : ∀ x, s.disk.node? (A ++ x) = d.node? (A ++ x) := fun x => hpasses.source hsides x
  obtain ⟨hkept, hleft⟩ := (RuleTable.Left.refl d.node?).run hsides hinner hrun
  have hsides' := hsides.kept hkept
  -- What the first run left does not stop the second one.
  have hagain : Again mode mode layout.rules (layout.sourceRoot mode.direction)
      (layout.destinationRoot mode.direction) A B layout.subdirs d (Session.start s.disk).disk
      s.disk := ⟨rfl, hsides, hsides', hleft, hsame, _, _, hpasses⟩
  obtain ⟨s', hrun', hpasses'⟩ := hagain.passes_again hinner hdry hwilling
  have hrest := (hpasses.synced hsides).rested hsame
  obtain ⟨hview, hconverted, hdeleted⟩ := hpasses'.idle (fun _ hp => hp) hrest
  -- Both runs have the accounts of the same source.
  have hfirst := Run.carried_sync hdry hinner hsides hrun
  have hsecond := Run.carried_sync hdry hinner hsides' hrun'
  have hwork : layout.subdirs.flatMap (layout.work mode s.disk) =
      layout.subdirs.flatMap (layout.work mode d) := by
    apply List.flatMap_congr
    intro q hq
    exact hsides.work_eq hsides' (hinner q hq) hsame
  rw [hwork] at hsecond
  refine ⟨s', hrun', ?_, ?_, (hpasses'.kept hsides'.plain).start, congrFun hview⟩
  · have hcounts : s'.tally.repeated = s.tally.repeated := hsecond.counts.trans hfirst.counts.symm
    rwa [Tally.repeated_eq_self _ hconverted hdeleted] at hcounts
  · exact hsecond.calls.trans hfirst.calls.symm

end Again

/-- A push of the sample, repeated at once. -/
theorem sync_idempotent_sample :
    ∃ s, (Run.sync Sample.layout Sample.push).run (Session.start Sample.pushed.disk) = (.ok (), s) ∧
      s.tally = { Sample.pushed.tally with
        converted := 0
        unchanged := Sample.pushed.tally.converted + Sample.pushed.tally.unchanged
        deleted := 0 } ∧
      s.tagCalls = Sample.pushed.tagCalls ∧ s.disk.start = Sample.pushed.disk.start ∧
      ∀ m, s.disk.node? m = Sample.pushed.disk.node? m :=
  sync_idempotent Sample.plain_disk Sample.check_layout Sample.source_disk
    Sample.destination_disk (by decide +kernel) (by decide +kernel) rfl trivial Sample.run_push

end GuestSync
