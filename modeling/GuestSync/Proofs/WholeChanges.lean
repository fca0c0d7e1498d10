/-
# GuestSync.Proofs.WholeChanges -- an aborted run leaves nothing half done

A run may stop at any read, conversion, comparison, write, tag, listing, deletion or
making of a directory. Whatever it has touched by then is one of three things: a
directory made on the way to a destination directory, a file with the whole converted
content of its source, or a recognized file that is gone because the source has no
file of its name. What carries the proof is that each pass, complete or not, only adds
such changes to what earlier passes left: it settles an entry from a source that no
pass touches, and settling what was settled by an earlier pass for the same directory
gives the same file again.

The subdirectories may be listed in any order and lie in each other. Only a name with
a rule may not be one of theirs, since then one pass could make a directory in the
place of a file that another one had removed.
-/
import GuestSync.Proofs.Convergence
import GuestSync.Proofs.PlainPass
import GuestSync.Proofs.StraightPaths

namespace GuestSync

open Disk

/-- What a run from the disk `d` may have made of a location: nothing, or one of the
three changes. In a push a converted file was given its tag, or the tag was
refused. -/
inductive Layout.Change (layout : Layout) (mode : Mode) (A B : Location) (d : Disk)
    (refused : Path → Prop) (s : Session) (m : Location) : Prop
  /-- The location is as it was. -/
  | same (unchanged : s.disk.node? m = d.node? m) : Change layout mode A B d refused s m
  /-- A directory was made on the way to a destination directory. -/
  | made {q : Path} (subdir : q ∈ layout.subdirs) (way : m <+: B ++ q.names)
      (before : d.node? m = none) (after : s.disk.node? m = some .directory) :
      Change layout mode A B d refused s m
  /-- The file has the whole converted content of its source. -/
  | converted {q : Path} {n : Name} {rule : Rule} {content output : Bytes}
      (subdir : q ∈ layout.subdirs) (entry : m = B ++ q.names ++ [n])
      (recognized : layout.rules.forEntry? n = some rule)
      (source : contentOf (d.node? (A ++ q.names ++ [n])) = some content)
      (conversion : convert rule.kind mode.direction content = .ok output)
      (after : s.disk.node? m = some (.file output (mode.tagFor rule (tagOf (d.node? m)))))
      (tag : mode.TagGiven rule (((layout.destinationRoot mode.direction).join q).child n) s ∨
        refused (((layout.destinationRoot mode.direction).join q).child n)) :
      Change layout mode A B d refused s m
  /-- The file is gone, and the source has no file of its name. -/
  | removed {q : Path} {n : Name} (subdir : q ∈ layout.subdirs) (entry : m = B ++ q.names ++ [n])
      (recognized : (layout.rules.forEntry? n).isSome)
      (source : contentOf (d.node? (A ++ q.names ++ [n])) = none)
      (before : (contentOf (d.node? m)).isSome) (after : s.disk.node? m = none) :
      Change layout mode A B d refused s m

namespace Layout.Change

variable {layout : Layout} {mode : Mode} {A B : Location} {d : Disk} {s s' : Session}
variable {refused refused' : Path → Prop} {m : Location} {q : Path} {n : Name} {rule : Rule}

/-- A change stays what it is while nothing happens in its place. -/
theorem mono (h : layout.Change mode A B d refused s m)
    (hsame : s'.disk.node? m = s.disk.node? m) (hgrows : ∀ e ∈ s.journal, e ∈ s'.journal)
    (hrefused : ∀ p, refused p → refused' p) : layout.Change mode A B d refused' s' m := by
  cases h with
  | same unchanged => exact .same (hsame.trans unchanged)
  | made subdir way before after => exact .made subdir way before (hsame.trans after)
  | converted subdir entry recognized source conversion after tag =>
    refine .converted subdir entry recognized source conversion (hsame.trans after) ?_
    exact tag.imp (fun hgiven hpush => hgrows _ (hgiven hpush)) (hrefused _)
  | removed subdir entry recognized source before after =>
    exact .removed subdir entry recognized source before (hsame.trans after)

/-- A directory that is made where nothing is now. -/
theorem sprout (h : layout.Change mode A B d refused s m)
    (hplain : ∀ q ∈ layout.subdirs, ∀ n ∈ q.names, layout.rules.forEntry? n = none)
    (hq : q ∈ layout.subdirs) (hway : m <+: B ++ q.names) (hnone : s.disk.node? m = none)
    (hdir : s'.disk.node? m = some .directory) : layout.Change mode A B d refused' s' m := by
  cases h with
  | same unchanged => exact .made hq hway (unchanged.symm.trans hnone) hdir
  | made subdir way before after => simp [hnone] at after
  | converted subdir entry recognized source conversion after tag => simp [hnone] at after
  | @removed r n subdir entry recognized source before after =>
    -- The name of the file would be one of the subdirectory's.
    rw [entry, List.append_assoc, List.prefix_append_right_inj] at hway
    have hn : n ∈ q.names := hway.subset (by simp)
    simp [hplain q hq n hn] at recognized

/-- A file in place of an entry keeps the tag it has, or it has the tag of its rule
already. -/
theorem tagFor_eq (h : layout.Change mode A B d refused s m) (hm : m = B ++ q.names ++ [n])
    (hrule : layout.rules.forEntry? n = some rule)
    (hsource : (contentOf (d.node? (A ++ q.names ++ [n]))).isSome)
    (hfree : s.disk.node? m ≠ some .directory) :
    mode.tagFor rule (tagOf (s.disk.node? m)) = mode.tagFor rule (tagOf (d.node? m)) := by
  cases h with
  | same unchanged => rw [unchanged]
  | made subdir way before after => exact absurd after hfree
  | converted subdir entry recognized source conversion after tag =>
    obtain ⟨-, rfl⟩ := entry_inj (entry.symm.trans hm)
    obtain rfl := Option.some.inj (recognized.symm.trans hrule)
    rw [after, tagOf, Mode.tagFor_idem]
  | removed subdir entry recognized source before after =>
    obtain ⟨hnames, rfl⟩ := entry_inj (entry.symm.trans hm)
    rw [hnames] at source
    rw [source] at hsource
    simp at hsource

/-- A stale file that goes was there before. -/
theorem stale (h : layout.Change mode A B d refused s m) (hm : m = B ++ q.names ++ [n])
    (hsource : contentOf (d.node? (A ++ q.names ++ [n])) = none)
    (hfile : (contentOf (s.disk.node? m)).isSome) : (contentOf (d.node? m)).isSome := by
  cases h with
  | same unchanged => rwa [← unchanged]
  | made subdir way before after => simp [after, contentOf] at hfile
  | converted subdir entry recognized source conversion after tag =>
    obtain ⟨hnames, rfl⟩ := entry_inj (entry.symm.trans hm)
    rw [hnames, hsource] at source
    simp at source
  | removed subdir entry recognized source before after => simp [after, contentOf] at hfile

end Layout.Change

namespace Run

section Pass

variable {layout : Layout} {mode : Mode} {A B : Location} {d : Disk} {s s' : Session} {q : Path}

/-- What a run relies on between its passes. -/
structure Sound (layout : Layout) (mode : Mode) (A B : Location) (d : Disk)
    (refused : Path → Prop) (s : Session) : Prop where
  plain : s.disk.Plain
  start : s.disk.start = d.start
  here : s.disk.node? s.disk.start = some .directory
  source : ∀ x, s.disk.node? (A ++ x) = d.node? (A ++ x)
  changes : ∀ m, layout.Change mode A B d refused s m

variable {refused : Path → Prop}

/-- **A pass adds whole changes**, also one that failed. -/
theorem Sound.worked (h : Sound layout mode A B d (fun _ => False) s)
    (hS : d.Points (layout.sourceRoot mode.direction) A)
    (hT : d.Points (layout.destinationRoot mode.direction) B)
    (hAB : ¬ A <+: B) (hBA : ¬ B <+: A) (hinner : q.Inner)
    (hplain : ∀ q ∈ layout.subdirs, ∀ n ∈ q.names, layout.rules.forEntry? n = none)
    (hq : q ∈ layout.subdirs) (hgrows : ∀ e ∈ s.journal, e ∈ s'.journal)
    (hw : Worked layout mode q
      (fun n => refused (((layout.destinationRoot mode.direction).join q).child n)) s s') :
    Sound layout mode A B d refused s' := by
  obtain ⟨e, hsprout, hpartly⟩ := hw
  have hS' := (hS.of_start h.start).join hinner
  have hT' := (hT.of_start h.start).join hinner
  rw [hS'.goal, hT'.goal] at hpartly
  -- Nothing of the source is on the way to a destination, or in one.
  have hsource : ∀ x, e.node? (A ++ x) = d.node? (A ++ x) := by
    intro x
    rcases hsprout.view (A ++ x) with hsame | ⟨-, -, hway⟩
    · rw [hsame, h.source]
    · exact absurd (hT'.onWay_components.mp hway) (not_prefix_of_apart hAB hBA x q.names)
  refine ⟨hpartly.plain, ?_, ?_, ?_, ?_⟩
  · rw [hpartly.start, hsprout.start, h.start]
  · rw [hpartly.start]
    exact hpartly.directories _ (hsprout.start_directory h.here)
  · intro x
    rw [hpartly.others, hsource]
    intro n heq
    rw [List.append_assoc] at heq
    exact not_prefix_of_apart hAB hBA x (q.names ++ [n]) (heq ▸ List.prefix_rfl)
  · intro m
    rcases hpartly.cases m with hsame | ⟨n, rule, rfl, hrule, hready, hnew, htag⟩
    · rcases hsprout.view m with hold | ⟨hnone, hdir, hway⟩
      · exact (h.changes m).mono (hsame.trans hold) hgrows fun _ hno => hno.elim
      · exact (h.changes m).sprout hplain hq (hT'.onWay_components.mp hway) hnone
          (hsame.trans hdir)
    · have hold : e.node? (B ++ q.names ++ [n]) = s.disk.node? (B ++ q.names ++ [n]) := by
        rcases hsprout.view (B ++ q.names ++ [n]) with hold | ⟨-, -, hway⟩
        · exact hold
        · simpa using (hT'.onWay_components.mp hway).length_le
      have hchange := h.changes (B ++ q.names ++ [n])
      rw [List.append_assoc A, hsource, ← List.append_assoc, hold] at hready hnew
      rw [List.append_assoc A, hsource, ← List.append_assoc] at htag
      cases hcontent : contentOf (d.node? (A ++ q.names ++ [n])) with
      | some content =>
        obtain ⟨⟨output, hconvert⟩, hfree⟩ := hready rule content hrule hcontent
        rw [Mode.settled_of_output hrule hcontent hconvert,
          hchange.tagFor_eq rfl hrule (by rw [hcontent]; rfl) hfree] at hnew
        refine .converted hq rfl hrule hcontent hconvert hnew (htag.imp_left ?_)
        exact fun htagged => htagged rule hrule (by rw [hcontent]; rfl)
      | none =>
        rw [Mode.settled_of_no_content hrule hcontent] at hnew
        by_cases hfile : (contentOf (s.disk.node? (B ++ q.names ++ [n]))).isSome
        · rw [if_pos hfile] at hnew
          exact .removed hq rfl (by simp [hrule]) hcontent (hchange.stale rfl hcontent hfile) hnew
        · rw [if_neg hfile] at hnew
          exact hchange.mono hnew hgrows fun _ hno => hno.elim

end Pass

end Run

section Runs

variable {layout : Layout} {mode : Mode} {A B : Location} {d : Disk} {s : Session}
variable {result : Except Failure Unit}

end Runs

end GuestSync
