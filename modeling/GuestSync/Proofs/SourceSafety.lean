/-
# GuestSync.Proofs.SourceSafety -- what a run leaves alone, wherever the roots lie

No check keeps the two roots apart, so the source of one subdirectory may lie in the
destination, and may be the destination of another one or of itself. What a run can
touch is the same in any case: the recognized entries of its destination directories,
and places where nothing was. So a file of a source directory is safe unless it is
such an entry, that is, unless its directory is also the destination of a subdirectory
and there is a rule for its name.
-/
import GuestSync.Proofs.DryRun
import GuestSync.Proofs.MissingDestination
import GuestSync.Proofs.PlainPass

namespace GuestSync

open Disk

namespace Layout

/-- Where the source directory of a subdirectory is to be found. -/
def sourcePlace (layout : Layout) (direction : Direction) (d : Disk) (q : Path) : Location :=
  Step.goal d.start ((layout.sourceRoot direction).join q).bareSteps

/-- A recognized entry of a destination directory. -/
def IsTarget (layout : Layout) (direction : Direction) (d : Disk) (m : Location) : Prop :=
  ∃ q ∈ layout.subdirs, ∃ n, (layout.rules.forEntry? n).isSome ∧
    m = layout.place direction d q ++ [n]

end Layout

section Keeps

variable {layout : Layout} {mode : Mode} {d : Disk} {q : Path} {s s' : Session}

/-- The session still has a plain disk, and on it every node of `d` that is no
target. -/
structure Layout.Keeping (layout : Layout) (direction : Direction) (d : Disk) (s : Session) :
    Prop where
  plain : s.disk.Plain
  start : s.disk.start = d.start
  here : s.disk.node? d.start = some .directory
  keeps : ∀ m x, d.node? m = some x → ¬ layout.IsTarget direction d m → s.disk.node? m = some x

/-- **A pass keeps what is no target.** -/
theorem Layout.Keeping.worked {refused : Name → Prop}
    (h : layout.Keeping mode.direction d s) (hq : q ∈ layout.subdirs)
    (hw : Run.Worked layout mode q refused s s') : layout.Keeping mode.direction d s' := by
  obtain ⟨e, hsprout, hpartly⟩ := hw
  refine ⟨hpartly.plain, ?_, hpartly.directories _ (hsprout.keeps h.here), ?_⟩
  · rw [hpartly.start, hsprout.start, h.start]
  · intro m x hm hnot
    have hthere := hsprout.keeps (h.keeps m x hm hnot)
    rcases hpartly.cases m with hsame | ⟨n, rule, heq, hrule, -⟩
    · rw [hsame, hthere]
    · refine absurd ⟨q, hq, n, by simp [hrule], ?_⟩ hnot
      rw [heq, h.start, Layout.place]

/-- **What a run leaves alone.** On a disk of directories and regular files, wherever
the roots lie and however the run ends, every node is as it was that is not a
recognized entry of a destination directory. -/
theorem Run.sync_keeps {result : Except Failure Unit} (hd : d.Plain)
    (hstart : d.node? d.start = some .directory) (hcheck : layout.check = .ok ())
    (hrun : (Run.sync layout mode).run (Session.start d) = (result, s)) {m : Location} {x : Node}
    (hm : d.node? m = some x) (hnot : ¬ layout.IsTarget mode.direction d m) :
    s.disk.node? m = some x := by
  cases hdry : mode.dryRun with
  | true =>
    have hsame := (Run.idle_sync hdry layout (Session.start d)).1
    rw [hrun] at hsame
    rw [show s.disk = d from hsame, hm]
  | false =>
    have hinner := Path.inner_of_check hcheck
    obtain ⟨-, hT⟩ := Path.roots_of_check hcheck mode.direction
    have hends := Run.Ends.forM (f := Run.pass layout mode) (s := Session.start d) layout.subdirs
      (I := fun _ s => layout.Keeping mode.direction d s)
      (E := fun _ s => layout.Keeping mode.direction d s)
      ⟨hd, rfl, hstart, fun _ _ hm _ => hm⟩ ?_
    · cases result with
      | ok u => exact (hends.ok hrun).keeps m x hm hnot
      | error e => exact (hends.error hrun).keeps m x hm hnot
    · intro done q rest s hsplit hs
      have hq : q ∈ layout.subdirs := by simp [hsplit]
      have hhere : s.disk.node? s.disk.start = some .directory := hs.start ▸ hs.here
      apply (Run.ends_pass_plain hdry hs.plain hhere hT (hinner q hq)).mono
      · intro _ s' hw
        exact hs.worked hq hw
      · intro _ s' hw
        exact hs.worked hq hw

/-- **Source files are safe** from a run in either direction, dry or not, however it
ends, unless the source directory is at the same place as the destination directory of
some subdirectory and there is a rule for the file's name. A file that is safe keeps its
content and its tag. -/
theorem source_files_safe {result : Except Failure Unit} {n : Name} {content : Bytes}
    {tag : Option Bytes} (hd : d.Plain) (hstart : d.node? d.start = some .directory)
    (hcheck : layout.check = .ok ())
    (hrun : (Run.sync layout mode).run (Session.start d) = (result, s))
    (hfile : d.node? (layout.sourcePlace mode.direction d q ++ [n]) = some (.file content tag))
    (hapart : (layout.rules.forEntry? n).isSome → ∀ r ∈ layout.subdirs,
      layout.place mode.direction d r ≠ layout.sourcePlace mode.direction d q) :
    s.disk.node? (layout.sourcePlace mode.direction d q ++ [n]) = some (.file content tag) := by
  apply Run.sync_keeps hd hstart hcheck hrun hfile
  rintro ⟨r, hr, k, hrule, heq⟩
  obtain ⟨hplace, rfl⟩ := List.append_singleton_inj.mp heq
  exact hapart hrule r hr hplace.symm

end Keeps

namespace Sample

/-- The guest root lies in the local root, and is itself a subdirectory to be pushed. -/
def enclosing : Layout where
  localRoot := Path.ofString "."
  guestRoot := Path.ofString "guest"
  subdirs := [Path.ofString "local", Path.ofString "guest"]
  rules := .standard

/-- The session after a push of that. -/
def furtherIn : Session := ((Run.sync enclosing push).run (Session.start disk)).2

theorem run_enclosing : (Run.sync enclosing push).run (Session.start disk) = (.ok (), furtherIn) := by
  have hok : ((Run.sync enclosing push).run (Session.start disk)).1 = .ok () := by decide +kernel
  rw [furtherIn, ← hok, Prod.mk.eta]

/-- Both roots are the same directory. -/
def coinciding : Layout := { layout with guestRoot := layout.localRoot }

end Sample

/-- A file in the guest root is a source file of the nested roots. The push copies it
further in and leaves it as it is. -/
theorem source_files_safe_sample :
    (Run.sync Sample.enclosing Sample.push).run (Session.start Sample.disk) =
        (.ok (), Sample.furtherIn) ∧
      Sample.furtherIn.disk.node?
          (Sample.enclosing.sourcePlace Sample.push.direction Sample.disk (Path.ofString "guest") ++
            [Sample.name "old.c"]) =
        some (.file (Utf8.ofString "y") none) := by
  have hcheck : Sample.enclosing.check = .ok () := by decide +kernel
  have hfile : Sample.disk.node?
      (Sample.enclosing.sourcePlace Sample.push.direction Sample.disk (Path.ofString "guest") ++
        [Sample.name "old.c"]) = some (.file (Utf8.ofString "y") none) := by
    decide +kernel
  have hapart : (Sample.enclosing.rules.forEntry? (Sample.name "old.c")).isSome →
      ∀ r ∈ Sample.enclosing.subdirs, Sample.enclosing.place Sample.push.direction Sample.disk r ≠
        Sample.enclosing.sourcePlace Sample.push.direction Sample.disk (Path.ofString "guest") := by
    decide +kernel
  exact ⟨Sample.run_enclosing, source_files_safe Sample.plain_disk (by decide +kernel) hcheck
    Sample.run_enclosing hfile hapart⟩

/-- Where the two roots are the same directory, a push that gets through converts the
source files in place. -/
theorem coinciding_roots_convert_source :
    Sample.coinciding.check = .ok () ∧ Sample.disk.IsPlain ∧
      Sample.disk.node? [Sample.name "local", Sample.name "a.c"] =
        some (.file (Utf8.ofString "x\n") none) ∧
      ((Run.sync Sample.coinciding Sample.push).run (Session.start Sample.disk)).1 = .ok () ∧
      contentOf (((Run.sync Sample.coinciding Sample.push).run
        (Session.start Sample.disk)).2.disk.node? [Sample.name "local", Sample.name "a.c"]) =
          some (Utf8.ofString "x\r") := by
  decide +kernel

end GuestSync
