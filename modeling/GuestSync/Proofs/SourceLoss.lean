/-
# GuestSync.Proofs.SourceLoss -- a source that is no directory

A pass makes its destination directory and then lists its source. If the source
path leads nowhere at that moment then the run fails, and it has deleted nothing
since the passes before. If the path leads to something that is no directory then
the listing is empty and no failure: the pass goes on as for an empty directory,
and every recognized file of the destination is deleted.
-/
import GuestSync.Proofs.SyncEffect

namespace GuestSync

open Disk

/-! ## Making directories takes nothing away -/

namespace Disk

variable {d : Disk} {p : Path}

theorem make_keeps {e : Disk} {n : Node} (h : d.make p n = .ok e) {m : Location} {x : Node}
    (hm : d.node? m = some x) : e.node? m = some x := by
  obtain ⟨l, -, hl, rfl⟩ := make_of_ok h
  -- The new node goes where nothing was, and that is not `m`.
  have hne : m ≠ l := by
    rintro rfl
    simp [hl] at hm
  rw [node?_put, if_neg hne, hm]
  split
  · next hroot => rw [← hm, hroot, node?_root]
  · rfl

theorem makeDirectories_keeps (d : Disk) (p : Path) {m : Location} {x : Node}
    (hm : d.node? m = some x) : (d.makeDirectories p).1.node? m = some x :=
  makeDirectories_induction (I := fun e => e.node? m = some x) (fun h hmake => make_keeps hmake h)
    hm p

end Disk

/-! ## Up to the listing of the source, and from there on -/

/-- The paths that a session has set out to delete. -/
def Session.deletions (s : Session) : List Path :=
  s.journal.filterMap fun
    | .delete path => some path
    | _ => none

/-- The session `s'` has set out to delete nothing that `s` had not, and whatever was
somewhere on the disk of `s` is there still. -/
structure Session.Spared (s s' : Session) : Prop where
  deletions : s'.deletions = s.deletions
  keeps : ∀ m x, s.disk.node? m = some x → s'.disk.node? m = some x

namespace Run

section Listing

variable {layout : Layout} {mode : Mode} {before after : List Path} {q : Path} {s₀ s : Session}

variable (layout mode before q) in
/-- A run up to the moment when it lists the source of a subdirectory: the passes
before, and the directory in the destination. -/
def approach : Run Unit := do
  before.forM (pass layout mode)
  makeDirectories ((layout.destinationRoot mode.direction).join q)

/-- A run is its approach to a subdirectory and what comes after. -/
theorem sync_eq (hdry : mode.dryRun = false) (hsplit : layout.subdirs = before ++ q :: after) :
    sync layout mode = approach layout mode before q >>= fun _ =>
      list ((layout.sourceRoot mode.direction).join q) >>= fun entries =>
        (Plan.ofSource layout.rules ((layout.destinationRoot mode.direction).join q) entries).actions.forM
            (execute mode q) >>= fun _ =>
          cleanUp layout.rules mode q ((layout.destinationRoot mode.direction).join q)
              (Plan.ofSource layout.rules ((layout.destinationRoot mode.direction).join q) entries) >>=
            fun _ => after.forM (pass layout mode) := by
  rw [sync, hsplit, forM_split]
  unfold approach pass
  simp only [hdry, Bool.false_and, Bool.false_eq_true, if_false, get_seq, bind_assoc]

/-- Making the destination directory deletes nothing. -/
theorem spared_approach {result : Except Failure Unit}
    (h : (approach layout mode before q).run s₀ = (result, s)) :
    ((before.forM (pass layout mode)).run s₀).2.Spared s := by
  unfold approach at h
  rw [run_bind] at h
  rcases hbefore : (before.forM (pass layout mode)).run s₀ with ⟨e | u, s₁⟩ <;> rw [hbefore] at h
  · obtain ⟨-, rfl⟩ := Prod.mk.inj h
    exact ⟨rfl, fun _ _ hm => hm⟩
  · dsimp only at h
    rw [run_makeDirectories] at h
    obtain ⟨-, rfl⟩ := Prod.mk.inj h
    exact ⟨by simp [Session.deletions], fun m x hm => makeDirectories_keeps _ _ hm⟩

theorem run_sync_not_arrived (hdry : mode.dryRun = false)
    (hsplit : layout.subdirs = before ++ q :: after) {e : Failure}
    (h : (approach layout mode before q).run s₀ = (.error e, s)) :
    (sync layout mode).run s₀ = (.error e, s) := by
  rw [sync_eq hdry hsplit, run_bind_error h]

/-- A source that cannot be listed ends the run on the spot. -/
theorem run_sync_not_listed (hdry : mode.dryRun = false)
    (hsplit : layout.subdirs = before ++ q :: after)
    (h : (approach layout mode before q).run s₀ = (.ok (), s)) {e : OsError}
    (hlist : s.disk.list ((layout.sourceRoot mode.direction).join q) = .error e) :
    (sync layout mode).run s₀ =
      (.error (.listing ((layout.sourceRoot mode.direction).join q) e), s) := by
  have hrun : (list ((layout.sourceRoot mode.direction).join q)).run s =
      (.error (.listing ((layout.sourceRoot mode.direction).join q) e), s) := by
    rw [run_list, hlist]
  rw [sync_eq hdry hsplit, run_bind_ok h, run_bind_error hrun]

/-- A source that is listed as empty leaves the plan for no entries. -/
theorem run_sync_empty (hdry : mode.dryRun = false)
    (hsplit : layout.subdirs = before ++ q :: after)
    (h : (approach layout mode before q).run s₀ = (.ok (), s))
    (hlist : s.disk.list ((layout.sourceRoot mode.direction).join q) = .ok []) :
    (sync layout mode).run s₀ =
      (cleanUp layout.rules mode q ((layout.destinationRoot mode.direction).join q) .empty >>=
        fun _ => after.forM (pass layout mode)).run s := by
  have hrun : (list ((layout.sourceRoot mode.direction).join q)).run s = (.ok [], s) := by
    rw [run_list, hlist]
    rfl
  rw [sync_eq hdry hsplit, run_bind_ok h, run_bind_ok hrun]
  rfl

end Listing

section Plain

variable {layout : Layout} {mode : Mode} {before after : List Path} {q : Path} {A B : Location}
variable {s₀ s : Session}

/-- On a plain disk the approach to a subdirectory leaves the source as it was. -/
theorem arrived_plain (hdry : mode.dryRun = false)
    (hd : s₀.disk.Sides (layout.sourceRoot mode.direction) (layout.destinationRoot mode.direction)
      A B) (hinner : ∀ p ∈ before ++ q :: after, p.Inner)
    (h : (approach layout mode before q).run s₀ = (.ok (), s)) :
    s.disk.Sides (layout.sourceRoot mode.direction) (layout.destinationRoot mode.direction) A B ∧
      (∀ x, s.disk.node? (A ++ x) = s₀.disk.node? (A ++ x)) ∧
      s.disk.node? (B ++ q.names) = some .directory := by
  have hends : (approach layout mode before q).Ends s₀
      (fun _ s => s.disk.Sides (layout.sourceRoot mode.direction)
          (layout.destinationRoot mode.direction) A B ∧
        (∀ x, s.disk.node? (A ++ x) = s₀.disk.node? (A ++ x)) ∧
        s.disk.node? (B ++ q.names) = some .directory) fun _ _ => True := by
    unfold approach
    apply ((ends_passes hdry hd fun p hp => hinner p (by simp [hp])).mono (fun _ _ h => h)
      fun _ _ _ => trivial).bind
    intro _ s₁ hpasses
    have hd₁ := hd.kept (hpasses.kept hd.plain)
    apply (ends_makeWay mode layout.rules hd₁ (hinner q (by simp))).mono
    · rintro _ s ⟨-, -, hkept, hgrown⟩
      refine ⟨hd₁.kept hkept, ?_, hgrown.way List.prefix_rfl⟩
      intro x
      rw [hgrown.other (hd₁.not_prefix x q.names), hpasses.source hd]
    · intro _ _ _
      trivial
  exact hends.ok h

/-- With the plan for no entries every recognized file goes. -/
theorem run_cleanUp_empty (rules : RuleTable) (q : Path) {T : Path} {l : Location}
    (hdry : mode.dryRun = false) (hd : s.disk.Plain) (hT : s.disk.Opens T l) :
    ∃ s', (cleanUp rules mode q T .empty).run s = (.ok (), s') ∧
      ∀ n, (rules.forEntry? n).isSome → contentOf (s'.disk.node? (l ++ [n])) = none := by
  have hexpected : rules.Expects Plan.empty.expected fun _ => none := by
    simp [RuleTable.Expects, Plan.empty, contentOf]
  have hends : (cleanUp rules mode q T .empty).Ends s _ fun _ _ => False :=
    ends_cleanUp hdry hd hT (fun _ => none) hexpected _
  rcases hrun : (cleanUp rules mode q T .empty).run s with ⟨e | u, s'⟩
  · exact (hends.error hrun).elim
  · obtain ⟨-, hre⟩ := hends.ok hrun
    refine ⟨s', rfl, ?_⟩
    intro n hn
    obtain ⟨rule, hrule⟩ := Option.isSome_iff_exists.mp hn
    rw [hre.entry fun hn => by rw [not_mem_children_iff.mp hn, Mode.cleaned_none]]
    -- No source entry counts as a file, so every one is settled as a stale entry.
    show contentOf (mode.settled rules n none (s.disk.node? (l ++ [n]))) = none
    rw [Mode.settled_of_no_content hrule rfl, contentOf_removed]

end Plain

end Run

/-! ## What becomes of a run without a usable source -/

section Unusable

variable {layout : Layout} {mode : Mode} {before after : List Path} {q : Path}

variable (layout mode before q) in
/-- From the disk `d` a run gets as far as listing the source of a subdirectory, in
the session `s`. -/
def Layout.Arrives (d : Disk) (s : Session) : Prop :=
  (Run.approach layout mode before q).run (Session.start d) = (.ok (), s)

variable (layout mode before) in
/-- A run from the disk `d` fails and has deleted nothing since the passes
before. -/
def Layout.Spares (d : Disk) : Prop :=
  ∃ e s, (Run.sync layout mode).run (Session.start d) = (.error e, s) ∧
    ((before.forM (Run.pass layout mode)).run (Session.start d)).2.Spared s

theorem Layout.spares_of_not_arrived (hdry : mode.dryRun = false)
    (hsplit : layout.subdirs = before ++ q :: after) {d : Disk}
    (h : ∀ s, ¬ layout.Arrives mode before q d s) : layout.Spares mode before d := by
  rcases hrun : (Run.approach layout mode before q).run (Session.start d) with ⟨e | u, s⟩
  · exact ⟨e, s, Run.run_sync_not_arrived hdry hsplit hrun, Run.spared_approach hrun⟩
  · exact absurd hrun (h s)

theorem Layout.spares_of_not_listed (hdry : mode.dryRun = false)
    (hsplit : layout.subdirs = before ++ q :: after) {d : Disk} {s : Session}
    (h : layout.Arrives mode before q d s) {e : OsError}
    (hlist : s.disk.list ((layout.sourceRoot mode.direction).join q) = .error e) :
    layout.Spares mode before d :=
  ⟨_, s, Run.run_sync_not_listed hdry hsplit h hlist, Run.spared_approach h⟩

section Plain

variable {d : Disk} {s : Session} {A B : Location}

/-- On a plain disk a run that gets that far has changed nothing in the source. -/
theorem Layout.Arrives.plain (hs : layout.Arrives mode before q d s) (hdry : mode.dryRun = false)
    (hd : d.Sides (layout.sourceRoot mode.direction) (layout.destinationRoot mode.direction) A B)
    (hinner : ∀ p ∈ before ++ q :: after, p.Inner) :
    s.disk.Sides (layout.sourceRoot mode.direction) (layout.destinationRoot mode.direction) A B ∧
      (∀ x, s.disk.node? (A ++ x) = d.node? (A ++ x)) ∧
      s.disk.node? (B ++ q.names) = some .directory := by
  have hstart : (Session.start d).disk.Sides (layout.sourceRoot mode.direction)
      (layout.destinationRoot mode.direction) A B := hd
  exact Run.arrived_plain hdry hstart hinner hs

/-- On a plain disk whether the source can be listed is decided at the start. -/
theorem Layout.Arrives.listable_iff (hs : layout.Arrives mode before q d s)
    (hdry : mode.dryRun = false)
    (hd : d.Sides (layout.sourceRoot mode.direction) (layout.destinationRoot mode.direction) A B)
    (hinner : ∀ p ∈ before ++ q :: after, p.Inner) : s.disk.Listable A q ↔ d.Listable A q := by
  obtain ⟨-, hsource, -⟩ := hs.plain hdry hd hinner
  unfold Listable
  rw [hsource]

/-- On a plain disk a source that was not there at the start ends the run. -/
theorem Layout.spares_of_nowhere (hdry : mode.dryRun = false)
    (hsplit : layout.subdirs = before ++ q :: after)
    (hd : d.Sides (layout.sourceRoot mode.direction) (layout.destinationRoot mode.direction) A B)
    (hinner : ∀ p ∈ before ++ q :: after, p.Inner) {e : OsError}
    (he : d.status ((layout.sourceRoot mode.direction).join q) = .error e) :
    layout.Spares mode before d := by
  have hq : q.Inner := hinner q (by simp)
  have hno : ¬ d.Listable A q := (status_join_error_iff hd.plain hd.source hq).mp ⟨e, he⟩
  -- A run that does not get that far has failed before.
  by_cases hreach : ∃ s, layout.Arrives mode before q d s
  · obtain ⟨s, hs⟩ := hreach
    rw [← hs.listable_iff hdry hd hinner] at hno
    obtain ⟨hsides, -, -⟩ := hs.plain hdry hd hinner
    obtain ⟨e', he'⟩ := list_join_error hsides.plain hsides.source hq hno
    exact spares_of_not_listed hdry hsplit hs he'
  · apply spares_of_not_arrived hdry hsplit
    intro s hs
    exact hreach ⟨s, hs⟩

/-- On a plain disk a source that is a file is listed as empty. -/
theorem Layout.Arrives.list_file (hs : layout.Arrives mode before q d s)
    (hdry : mode.dryRun = false)
    (hd : d.Sides (layout.sourceRoot mode.direction) (layout.destinationRoot mode.direction) A B)
    (hinner : ∀ p ∈ before ++ q :: after, p.Inner) {x : Node}
    (hx : d.status ((layout.sourceRoot mode.direction).join q) = .ok x) (hne : x ≠ .directory) :
    s.disk.list ((layout.sourceRoot mode.direction).join q) = .ok [] := by
  have hq : q.Inner := hinner q (by simp)
  obtain ⟨hsides, hsource, -⟩ := hs.plain hdry hd hinner
  have hlist : s.disk.Listable A q := by
    rw [hs.listable_iff hdry hd hinner]
    by_contra hno
    obtain ⟨e, he⟩ := status_join_error hd.plain hd.source hq hno
    rw [he] at hx
    simp at hx
  have hnot : s.disk.node? (A ++ q.names) ≠ some .directory := by
    intro hdir
    rw [hsource] at hdir
    have hopens : d.Opens _ _ := hd.source.join hd.plain hq hdir
    have hyes := isDirectory_iff.mpr ⟨_, hopens.directoryAt⟩
    rw [isDirectory, hx] at hyes
    cases x <;> simp at hyes hne
  rw [list_join hsides.plain hsides.source hq hlist, hsides.plain.children_of_not_directory hnot]

/-- On a plain disk a source that was a file lets all recognized files of its
destination be deleted. -/
theorem Layout.Arrives.cleared (hs : layout.Arrives mode before q d s)
    (hdry : mode.dryRun = false) (hsplit : layout.subdirs = before ++ q :: after)
    (hd : d.Sides (layout.sourceRoot mode.direction) (layout.destinationRoot mode.direction) A B)
    (hinner : ∀ p ∈ before ++ q :: after, p.Inner) {x : Node}
    (hx : d.status ((layout.sourceRoot mode.direction).join q) = .ok x) (hne : x ≠ .directory) :
    ∃ s', (Run.sync layout mode).run (Session.start d) =
        (after.forM (Run.pass layout mode)).run s' ∧
      ∀ n, (layout.rules.forEntry? n).isSome →
        contentOf (s'.disk.node? (B ++ q.names ++ [n])) = none := by
  have hempty := hs.list_file hdry hd hinner hx hne
  obtain ⟨hsides, -, hway⟩ := hs.plain hdry hd hinner
  obtain ⟨s', hrun, hgone⟩ := Run.run_cleanUp_empty layout.rules q hdry hsides.plain
    (hsides.destination.join hsides.plain (hinner q (by simp)) hway)
  refine ⟨s', ?_, hgone⟩
  rw [Run.run_sync_empty hdry hsplit hs hempty, Run.run_bind_ok hrun]

end Plain

/-- **A source that is no directory.** Where the source path leads nowhere when it is
to be listed, or is not reached, the run fails and has deleted nothing since the
passes before. Where it leads to something that is no directory the pass goes on with
the plan for no entries. On a disk of directories and regular files, between two roots
apart from each other, it is the start of the run that decides: nothing at the source
path is fatal and deletes nothing, but a regular file there is no failure, and the
pass leaves no recognized file in its destination. -/
theorem unusable_source (hdry : mode.dryRun = false)
    (hsplit : layout.subdirs = before ++ q :: after) :
    (∀ d, (∀ s, layout.Arrives mode before q d s →
        ∃ e, s.disk.status ((layout.sourceRoot mode.direction).join q) = .error e) →
      layout.Spares mode before d) ∧
    (∀ d s x, layout.Arrives mode before q d s →
      s.disk.status ((layout.sourceRoot mode.direction).join q) = .ok x → x ≠ .directory →
        (Run.sync layout mode).run (Session.start d) =
          (Run.cleanUp layout.rules mode q ((layout.destinationRoot mode.direction).join q) .empty >>=
            fun _ => after.forM (Run.pass layout mode)).run s) ∧
    ∀ d A B, d.Plain → layout.check = .ok () →
      d.DirectoryAt (layout.sourceRoot mode.direction) A →
      d.DirectoryAt (layout.destinationRoot mode.direction) B → ¬ A <+: B → ¬ B <+: A →
        (∀ e, d.status ((layout.sourceRoot mode.direction).join q) = .error e →
          layout.Spares mode before d) ∧
        ∀ x, d.status ((layout.sourceRoot mode.direction).join q) = .ok x → x ≠ .directory →
          ∀ s, layout.Arrives mode before q d s →
            ∃ s', (Run.sync layout mode).run (Session.start d) =
                (after.forM (Run.pass layout mode)).run s' ∧
              ∀ n, (layout.rules.forEntry? n).isSome →
                contentOf (s'.disk.node? (B ++ q.names ++ [n])) = none := by
  refine ⟨?_, ?_, ?_⟩
  · intro d hnowhere
    by_cases hreach : ∃ s, layout.Arrives mode before q d s
    · obtain ⟨s, hs⟩ := hreach
      obtain ⟨e, he⟩ := hnowhere s hs
      exact Layout.spares_of_not_listed hdry hsplit hs (list_of_status_error he)
    · apply Layout.spares_of_not_arrived hdry hsplit
      intro s hs
      exact hreach ⟨s, hs⟩
  · intro d s x hs hx hne
    exact Run.run_sync_empty hdry hsplit hs (list_of_status_ok hx hne)
  · intro d A B hd hcheck hsource hdestination hAB hBA
    have hsides := hd.sides hsource hdestination hAB hBA
    have hinner : ∀ p ∈ before ++ q :: after, p.Inner := hsplit ▸ Path.inner_of_check hcheck
    refine ⟨?_, ?_⟩
    · intro e he
      exact Layout.spares_of_nowhere hdry hsplit hsides hinner he
    · intro x hx hne s hs
      exact hs.cleared hdry hsplit hsides hinner hx hne

end Unusable

namespace Sample

/-- The roots of the sample with one subdirectory below them. -/
def nested : Layout := { layout with subdirs := [Path.ofString "macos"] }

/-- A file on the guest, and no source directory. -/
def missing : Disk where
  start := []
  nodes := [([name "local"], .directory), ([name "guest"], .directory),
    ([name "guest", name "macos"], .directory),
    ([name "guest", name "macos", name "old.c"], .file (Utf8.ofString "old") none)]

/-- A file on the guest, and a regular file in place of the source directory. -/
def obstructed : Disk :=
  { missing with nodes := ([name "local", name "macos"], .file (Utf8.ofString "x") none) ::
      missing.nodes }

end Sample

/-- Without its source directory a push fails. -/
theorem unusable_source_sample : Sample.nested.Spares Sample.push [] Sample.missing := by
  have hsplit : Sample.nested.subdirs = [] ++ Path.ofString "macos" :: [] := rfl
  obtain ⟨-, -, hplain⟩ := unusable_source (show Sample.push.dryRun = false from rfl) hsplit
  obtain ⟨hnowhere, -⟩ := hplain Sample.missing [Sample.name "local"] [Sample.name "guest"]
    (IsPlain.plain (by decide +kernel)) (by decide +kernel) (by constructor <;> decide +kernel)
    (by constructor <;> decide +kernel) (by decide +kernel) (by decide +kernel)
  exact hnowhere .notFound (by decide +kernel)

/-- With a regular file in place of its source directory a push gets through, and
deletes the guest's file. -/
theorem file_source_deletes :
    Sample.nested.check = .ok () ∧
      Sample.obstructed.isDirectory (Sample.nested.localRoot.join (Path.ofString "macos")) = false ∧
      ((Run.sync Sample.nested Sample.push).run (Session.start Sample.obstructed)).1 = .ok () ∧
      ((Run.sync Sample.nested Sample.push).run (Session.start Sample.obstructed)).2.deletions =
        [Path.ofString "guest/macos/old.c"] := by
  decide +kernel

end GuestSync
