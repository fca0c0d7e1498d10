/-
# GuestSync.Proofs.MissingDestination -- a destination that is not there yet

A run makes the destination directories of its subdirectories with all that is
missing above them, the root included, wherever the two roots lie. What it makes
and writes never gets in the way of a later subdirectory: a file is only written
where the source has one, and the source has a directory wherever the way of a
subdirectory goes on. The one thing that stops it is a subdirectory whose path ends
in a `.` segment behind a name that is still missing when its turn comes, and that
is so for `.` itself while the destination root is missing.
-/
import GuestSync.Proofs.PathMaking
import GuestSync.Proofs.SyncEffect

namespace GuestSync

open Disk

/-! ## Where subdirectories lead -/

/-- The way along names inside goes through what lies before them. -/
theorem OnWay.inside {l m : Location} {cs : List Component} {ns : List Name}
    (h : OnWay l (cs ++ ns.map .name) m) :
    OnWay l cs m ∨ m <+: Step.goal l (cs.map Step.ofComponent) ++ ns := by
  obtain ⟨xs, hne, hxs, hm⟩ := h
  rcases List.prefix_or_prefix_of_prefix hxs (List.prefix_append cs _) with hp | ⟨ys, rfl⟩
  · exact .inl ⟨xs, hne, hp, hm⟩
  · right
    rw [List.prefix_append_right_inj] at hxs
    obtain ⟨zs, hzs⟩ := hxs
    obtain ⟨ks, rest, rfl, rfl, -⟩ := List.map_eq_append_iff.mp hzs.symm
    rw [List.map_append, Step.goal_append, Step.goal_inside (Component.inside_names ks),
      Component.names_map_name] at hm
    exact hm.trans ((List.prefix_append_right_inj _).mpr (List.prefix_append ks rest))

theorem Path.endsInHere_join {p q : Path} (hp : p.isEmpty = false) (hq : q.Inner) :
    (p.join q).endsInHere = q.endsInHere := by
  rw [endsInHere, written_join hp hq.not_absolute,
    List.getLast?_append_of_ne_nil _ (written_ne_nil hq.nonempty)]
  rfl

/-- What a run that finds its sources keeps of its disk: all source directories are
there, and no file is on the way to a destination directory. -/
structure Disk.Bound (d : Disk) (S T : Path) (A : Location) (qs : List Path) : Prop where
  plain : d.Plain
  start : d.node? d.start = some .directory
  sources : ∀ q ∈ qs, d.Opens (S.join q) (A ++ q.names)
  free : ∀ q ∈ qs, d.FileFree d.start (T.join q).components

/-- Where there is no source file none is written. -/
theorem Mode.contentOf_settled {mode : Mode} {rules : RuleTable} {n : Name}
    {source old : Option Node} (hsource : contentOf source = none) (hold : contentOf old = none) :
    contentOf (mode.settled rules n source old) = none := by
  cases hrule : rules.forEntry? n with
  | none => rwa [settled_of_no_rule hrule]
  | some rule =>
    rw [settled_of_no_content hrule hsource]
    exact contentOf_removed old

namespace Disk

section Bound

variable {mode : Mode} {rules : RuleTable} {d e f : Disk} {S T : Path} {A : Location}
variable {q : Path} {qs : List Path}

/-- A pass makes the directories on its way and no others. -/
theorem Laid.directory_iff {k l : Location} (h : d.Laid e (T.join q).components)
    (he : e.Plain) (hl : e.node? l = some .directory) (hp : mode.Passed rules k l e f)
    (m : Location) :
    f.node? m = some .directory ↔
      d.node? m = some .directory ∨ OnWay d.start (T.join q).components m := by
  have hlaid : e.node? m = some .directory ↔
      d.node? m = some .directory ∨ OnWay d.start (T.join q).components m := by
    by_cases hway : OnWay d.start (T.join q).components m
    · simp [h.way m hway, hway]
    · simp [h.others m hway, hway]
  rw [← hlaid]
  refine ⟨?_, hp.directories m⟩
  intro hm
  rcases hp.cases he hl m with hsame | ⟨n, -, hnew⟩
  · rwa [← hsame]
  · rw [hnew] at hm
    rcases mode.settled_cases rules n (e.node? (k ++ [n])) (e.node? m) with hx | hx | ⟨c, t, hx⟩
    · simp [hx] at hm
    · rwa [← hx]
    · simp [hx] at hm

/-- No pass writes a file on the way to a destination directory: the source has a
directory of that name. -/
theorem Bound.free_passed (h : d.Bound S T A qs) (hempty : T.isEmpty = false)
    (hinner : ∀ q ∈ qs, q.Inner) (hq : q ∈ qs) (laid : d.Laid e (T.join q).components)
    (he : e.Plain)
    (hl : e.node? (Step.goal d.start T.bareSteps ++ q.names) = some .directory)
    (hp : mode.Passed rules (A ++ q.names) (Step.goal d.start T.bareSteps ++ q.names) e f)
    {r : Path} (hr : r ∈ qs) : f.FileFree d.start (T.join r).components := by
  intro m hm
  have hold : contentOf (e.node? m) = none := laid.no_content (h.free r hr m hm)
  rcases hp.cases he hl m with hsame | ⟨n, hentry, hnew⟩
  · rwa [hsame]
  rw [Path.components_join hempty (hinner r hr)] at hm
  rcases hm.inside with hroot | hinside
  · -- On the way to the root there are directories by now.
    have hway : OnWay d.start (T.join q).components m := by
      rw [Path.components_join hempty (hinner q hq)]
      exact hroot.mono (List.prefix_append _ _)
    rw [hp.directories m (laid.way m hway)]
    rfl
  · rw [hnew]
    apply Mode.contentOf_settled _ hold
    rw [Path.goal_components, hentry, List.append_assoc, List.prefix_append_right_inj] at hinside
    have hsource : A ++ q.names ++ [n] <+: A ++ r.names := by
      rwa [List.append_assoc, List.prefix_append_right_inj]
    rw [he.directory_of_prefix_directory hsource (laid.keeps _ (h.sources r hr).directory)]
    rfl

/-- **A pass keeps what a run relies on.** -/
theorem Bound.passed (h : d.Bound S T A qs) (hempty : T.isEmpty = false)
    (hinner : ∀ q ∈ qs, q.Inner) (hq : q ∈ qs) (laid : d.Laid e (T.join q).components)
    (hp : mode.Passed rules (A ++ q.names) (Step.goal d.start T.bareSteps ++ q.names) e f) :
    f.Bound S T A qs ∧ f.start = d.start ∧ ∀ m, f.node? m = some .directory ↔
      d.node? m = some .directory ∨ OnWay d.start (T.join q).components m := by
  have hne := Path.components_ne_nil (Path.isEmpty_join hempty (hinner q hq))
  have he : e.Plain := laid.plain h.plain h.start (Path.spellable_components (T.join q)).1
  have hl : e.node? (Step.goal d.start T.bareSteps ++ q.names) = some .directory := by
    rw [← Path.goal_join hempty (hinner q hq), ← Path.goal_components]
    exact laid.way _ (onWay_of_prefix_goal hne List.prefix_rfl)
  have hstart : f.start = d.start := hp.start.trans laid.start
  have hkeeps : ∀ m, d.node? m = some .directory → f.node? m = some .directory := by
    intro m hm
    exact hp.directories m (laid.keeps m hm)
  refine ⟨⟨hp.plain, ?_, ?_, ?_⟩, hstart, laid.directory_iff he hl hp⟩
  · rw [hstart]
    exact hkeeps _ h.start
  · intro r hr
    exact (h.sources r hr).mono hstart hkeeps
  · intro r hr
    rw [hstart]
    exact h.free_passed hempty hinner hq laid he hl hp hr

end Bound

end Disk

namespace Run

section Pass

variable {layout : Layout} {mode : Mode} {q : Path} {s : Session} {S T : Path} {A : Location}
variable {qs : List Path}

/-- One pass, with nothing assumed about the destination but that no file is on the way
to it. -/
theorem ends_pass_bound (hdry : mode.dryRun = false)
    (hS : layout.sourceRoot mode.direction = S) (hT : layout.destinationRoot mode.direction = T)
    (hempty : T.isEmpty = false) (hinner : q.Inner) (hq : q ∈ qs)
    (h : s.disk.Bound S T A qs) :
    Ends (pass layout mode q) s
      (fun _ s' => s.disk.Seated (T.join q) ∧
        ∃ e, s.disk.Laid e (T.join q).components ∧
          mode.Passed layout.rules (A ++ q.names)
            (Step.goal s.disk.start T.bareSteps ++ q.names) e s'.disk)
      (fun f _ => ¬ s.disk.Seated (T.join q) ∧
          f = .operation .makeDirectory (T.join q) (.system .notFound) ∨
        f.OfEntry (S.join q) (T.join q)) := by
  have hpath := Path.isEmpty_join hempty hinner
  have hmaking := pathMaking h.plain h.start hpath (h.free q hq)
  have hrun := run_makeDirectories s (T.join q)
  generalize s.disk.makeDirectories (T.join q) = made at hmaking hrun
  obtain ⟨e, answer⟩ := made
  dsimp only at hmaking hrun
  unfold pass
  simp only [hdry, Bool.false_and, Bool.false_eq_true, if_false, get_seq, hS, hT]
  cases hmaking with
  | unseated notSeated laid =>
    exact Ends.bind_error hrun (.inl ⟨notSeated, rfl⟩)
  | made seated laid =>
    have hplain : e.Plain := by
      apply laid.plain h.plain h.start
      exact (Path.spellable_components (T.join q)).1
    have hestart : e.node? e.start = some .directory := by
      rw [laid.start]
      exact laid.keeps _ h.start
    have hdestination := opens_of_clear hplain hestart hpath laid.clear
    rw [laid.start, Path.goal_components, Path.goal_join hempty hinner] at hdestination
    have hsource : e.Opens (S.join q) (A ++ q.names) :=
      (h.sources q hq).mono laid.start laid.keeps
    refine Ends.bind_ok hrun (Ends.bind_ok (run_list_opens hsource) ?_)
    apply (ends_loops layout.rules q hdry hplain (fun _ => hsource) hdestination).mono
    · rintro _ s' ⟨-, -, -, hpassed⟩
      exact ⟨seated, e, laid, hpassed⟩
    · rintro f s' ⟨hfailure, -⟩
      exact .inr hfailure

end Pass

end Run

/-! ## The whole run -/

namespace Layout

/-- Where the destination directory of a subdirectory is to be. -/
def place (layout : Layout) (direction : Direction) (d : Disk) (q : Path) : Location :=
  Step.goal d.start ((layout.destinationRoot direction).join q).bareSteps

/-- Whether a subdirectory can be made after those before it. If its path ends in `.`
then its place is there at the start, or is on the way to one of those before, or is on
the way that its own path takes before the last component. -/
def Seated (layout : Layout) (direction : Direction) (d : Disk) (before : List Path)
    (q : Path) : Prop :=
  q.endsInHere = true →
    d.node? (layout.place direction d q) = some .directory ∨
      (∃ r ∈ before, OnWay d.start ((layout.destinationRoot direction).join r).components
        (layout.place direction d q)) ∨
      OnWay d.start ((layout.destinationRoot direction).join q).components.dropLast
        (layout.place direction d q)

variable {layout : Layout} {direction : Direction} {d : Disk}

theorem seated_iff {e : Disk} {before : List Path} {q : Path}
    (hempty : (layout.destinationRoot direction).isEmpty = false) (hq : q.Inner)
    (hstart : e.start = d.start)
    (hdirs : ∀ m, e.node? m = some .directory ↔ d.node? m = some .directory ∨
      ∃ r ∈ before, OnWay d.start ((layout.destinationRoot direction).join r).components m) :
    e.Seated ((layout.destinationRoot direction).join q) ↔ layout.Seated direction d before q := by
  unfold Disk.Seated Layout.Seated place
  rw [Path.endsInHere_join hempty hq, hstart, Path.goal_components, hdirs, or_assoc]

/-- The failures that a run may end in although its sources are there and no file is on
the way to a destination: one that an entry gives rise to, or a subdirectory that cannot
be made because it is not seated. -/
def Excuses (layout : Layout) (direction : Direction) (d : Disk) (f : Failure) : Prop :=
  (∃ q ∈ layout.subdirs, f.OfEntry ((layout.sourceRoot direction).join q)
      ((layout.destinationRoot direction).join q)) ∨
    ∃ before q after, layout.subdirs = before ++ q :: after ∧
      ¬ layout.Seated direction d before q ∧
      f = .operation .makeDirectory ((layout.destinationRoot direction).join q)
        (.system .notFound)

/-- What a run has come to on the disk `e`, after the passes that are done: it still
has what it relies on, and the directories of the disk are those that were there and
those on the way to the subdirectories. -/
structure Reached (layout : Layout) (direction : Direction) (A : Location) (d : Disk)
    (done : List Path) (e : Disk) : Prop where
  bound : e.Bound (layout.sourceRoot direction) (layout.destinationRoot direction) A
    layout.subdirs
  start : e.start = d.start
  directories : ∀ m, e.node? m = some .directory ↔ d.node? m = some .directory ∨
    ∃ r ∈ done, OnWay d.start ((layout.destinationRoot direction).join r).components m
  seated : ∀ before q after, done = before ++ q :: after → layout.Seated direction d before q

variable {A : Location}

/-- All source directories lie in the place that the source root leads to. -/
theorem reached_nil (hd : d.Plain) (hstart : d.node? d.start = some .directory)
    (hempty : (layout.sourceRoot direction).isEmpty = false)
    (hinner : ∀ q ∈ layout.subdirs, q.Inner)
    (hsource : ∀ q ∈ layout.subdirs,
      d.isDirectory ((layout.sourceRoot direction).join q) = true)
    (hfree : ∀ q ∈ layout.subdirs,
      d.FileFree d.start ((layout.destinationRoot direction).join q).components) :
    layout.Reached direction (Step.goal d.start (layout.sourceRoot direction).bareSteps) d [] d := by
  refine ⟨⟨hd, hstart, ?_, hfree⟩, rfl, by simp, by simp⟩
  intro q hq
  obtain ⟨l, hl⟩ := isDirectory_iff.mp (hsource q hq)
  have hopens := hd.opens hl
  have hgoal := hopens.goal
  rw [Path.goal_join hempty (hinner q hq)] at hgoal
  rwa [← hgoal] at hopens

/-- One pass more. -/
theorem Reached.concat {e e' f : Disk} {mode : Mode} {rules : RuleTable} {done : List Path}
    {q : Path} (h : layout.Reached direction A d done e)
    (hempty : (layout.destinationRoot direction).isEmpty = false)
    (hinner : ∀ q ∈ layout.subdirs, q.Inner) (hq : q ∈ layout.subdirs)
    (hseated : e.Seated ((layout.destinationRoot direction).join q))
    (hlaid : e.Laid e' ((layout.destinationRoot direction).join q).components)
    (hp : mode.Passed rules (A ++ q.names)
      (Step.goal e.start (layout.destinationRoot direction).bareSteps ++ q.names) e' f) :
    layout.Reached direction A d (done ++ [q]) f := by
  obtain ⟨hbound, hstart, hdirs⟩ := h.bound.passed hempty hinner hq hlaid hp
  refine ⟨hbound, hstart.trans h.start, ?_, ?_⟩
  · intro m
    rw [hdirs, h.directories, h.start]
    simp [or_and_right, exists_or, or_assoc]
  · intro before r after hsplit
    rcases List.eq_nil_or_concat after with rfl | ⟨rest, x, rfl⟩
    · obtain ⟨rfl, rfl⟩ := List.append_singleton_inj.mp hsplit
      exact (seated_iff hempty (hinner q hq) h.start h.directories).mp hseated
    · rw [List.concat_eq_append, ← List.cons_append, ← List.append_assoc] at hsplit
      exact h.seated before r rest (List.append_singleton_inj.mp hsplit).1

/-- A run that has come to its end has all its directories. -/
theorem Reached.isDirectory {e : Disk} (h : layout.Reached direction A d layout.subdirs e)
    (hempty : (layout.destinationRoot direction).isEmpty = false)
    (hinner : ∀ q ∈ layout.subdirs, q.Inner) {q : Path} (hq : q ∈ layout.subdirs) :
    e.isDirectory ((layout.destinationRoot direction).join q) = true := by
  have hclear : e.Clear e.start
      (((layout.destinationRoot direction).join q).components.map Step.ofComponent) := by
    apply clear_of_onWay
    intro m hm
    rw [h.start] at hm
    exact (h.directories m).mpr (.inr ⟨q, hq, hm⟩)
  have hopens := opens_of_clear h.bound.plain h.bound.start
    (Path.isEmpty_join hempty (hinner q hq)) hclear
  exact isDirectory_iff.mpr ⟨_, hopens.directoryAt⟩

end Layout

section Run

variable {layout : Layout} {mode : Mode} {d : Disk}

/-- **A missing destination is made.** On a disk of directories and regular files,
wherever the roots lie, let every source directory be there and no file on the way to a
destination directory. A run that gets through has all its destination directories. One
that does not has met a content that cannot be converted, a directory in place of a
destination file or a tagger that refuses, or it has come to a subdirectory that is not
seated. -/
theorem missing_destination_made (hd : d.Plain) (hstart : d.node? d.start = some .directory)
    (hcheck : layout.check = .ok ()) (hdry : mode.dryRun = false)
    (hsource : ∀ q ∈ layout.subdirs,
      d.isDirectory ((layout.sourceRoot mode.direction).join q) = true)
    (hfree : ∀ q ∈ layout.subdirs,
      d.FileFree d.start ((layout.destinationRoot mode.direction).join q).components) :
    (∃ s, (Run.sync layout mode).run (Session.start d) = (.ok (), s) ∧
      (∀ before q after, layout.subdirs = before ++ q :: after →
        layout.Seated mode.direction d before q) ∧
      ∀ q ∈ layout.subdirs,
        s.disk.isDirectory ((layout.destinationRoot mode.direction).join q) = true) ∨
    ∃ f s, (Run.sync layout mode).run (Session.start d) = (.error f, s) ∧
      layout.Excuses mode.direction d f := by
  have hinner := Path.inner_of_check hcheck
  obtain ⟨hS, hT⟩ := Path.roots_of_check hcheck mode.direction
  have hstarted := Layout.reached_nil hd hstart hS hinner hsource hfree
  have hends := Run.Ends.forM (f := Run.pass layout mode) (s := Session.start d) layout.subdirs
    (I := fun done s => layout.Reached mode.direction _ d done s.disk)
    (E := fun f _ => layout.Excuses mode.direction d f) hstarted ?_
  · rcases hrun : (Run.sync layout mode).run (Session.start d) with ⟨f | u, s⟩
    · exact .inr ⟨f, s, rfl, hends.error hrun⟩
    · have hs := hends.ok hrun
      exact .inl ⟨s, rfl, hs.seated, fun q hq => hs.isDirectory hT hinner hq⟩
  · intro done q rest s hsplit hs
    have hq : q ∈ layout.subdirs := by simp [hsplit]
    have hseated := Layout.seated_iff hT (hinner q hq) hs.start hs.directories
    apply (Run.ends_pass_bound hdry rfl rfl hT (hinner q hq) hq hs.bound).mono
    · rintro _ s' ⟨hsat, e, hlaid, hpassed⟩
      exact hs.concat hT hinner hq hsat hlaid hpassed
    · rintro f s' (⟨hno, rfl⟩ | hentry)
      · exact .inr ⟨done, q, rest, hsplit, fun hsat => hno (hseated.mpr hsat), rfl⟩
      · exact .inl ⟨q, hq, hentry⟩

end Run

namespace Sample

/-- A source directory below the local root, and no guest at all. -/
def unmade : Disk where
  start := []
  nodes := [([name "local"], .directory), ([name "local", name "macos"], .directory),
    ([name "local", name "macos", name "a.c"], .file (Utf8.ofString "x\n") none)]

/-- The roots of the sample, named after a subdirectory of theirs. -/
def seated : Layout := { layout with subdirs := [Path.ofString "macos/", Path.ofString "."] }

/-- The session after a push of that. -/
def made : Session := ((Run.sync seated push).run (Session.start unmade)).2

theorem run_made : (Run.sync seated push).run (Session.start unmade) = (.ok (), made) := by
  have hok : ((Run.sync seated push).run (Session.start unmade)).1 = .ok () := by decide +kernel
  rw [made, ← hok, Prod.mk.eta]

end Sample

/-- With a subdirectory in front of them the roots need not be there. -/
theorem missing_destination_made_sample :
    (Run.sync Sample.seated Sample.push).run (Session.start Sample.unmade) =
        (.ok (), Sample.made) ∧
      ∀ q ∈ Sample.seated.subdirs,
        Sample.made.disk.isDirectory ((Sample.seated.destinationRoot .push).join q) = true := by
  have hplain : Sample.unmade.Plain := IsPlain.plain (by decide +kernel)
  have hcheck : Sample.seated.check = .ok () := by decide +kernel
  refine ⟨Sample.run_made, ?_⟩
  rcases missing_destination_made hplain (by decide +kernel) hcheck
    (show Sample.push.dryRun = false from rfl) (by decide +kernel) (by decide +kernel) with
    ⟨s, hrun, -, hdirs⟩ | ⟨f, s, hrun, -⟩
  · rw [Sample.run_made] at hrun
    obtain rfl := (Prod.mk.inj hrun).2
    exact hdirs
  · rw [Sample.run_made] at hrun
    cases (Prod.mk.inj hrun).1

/-- A push of the root itself to a guest that is not there fails before anything is
done: the system does not make `guest/.` where there is no `guest`. -/
theorem missing_root_refused :
    Sample.layout.check = .ok () ∧ Sample.unmade.IsPlain ∧
      Sample.unmade.isDirectory (Sample.layout.localRoot.join (Path.ofString ".")) = true ∧
      Sample.unmade.FileFree [] (Sample.layout.guestRoot.join (Path.ofString ".")).components ∧
      ((Run.sync Sample.layout Sample.push).run (Session.start Sample.unmade)).1 =
        .error (.operation .makeDirectory (Path.ofString "guest/.") (.system .notFound)) := by
  decide +kernel

end GuestSync
