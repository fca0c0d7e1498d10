/-
# GuestSync.Proofs.Accounts -- what a run counts and whom it asks

Which tag call an action makes and what it counts is decided by the action alone,
on any disk, as long as the action gets through. One thing is not: whether a file
that was dealt with counts as converted or as unchanged. `repeated` takes the counts
as if everything had been found done, and then the counts and the calls of a run are
those of the actions for its source entries, in their order. Deletions add nothing
to either. Between two sides apart from each other the source entries are the ones
of the start, so two runs over one source have the same accounts.
-/
import GuestSync.Proofs.RunPairs
import GuestSync.Proofs.SyncEffect

namespace GuestSync

/-! ## Counts of a run that finds everything done -/

namespace Tally

/-- The counts with every file found unchanged that was dealt with, and with no
deletions. -/
def repeated (t : Tally) : Tally :=
  { t with converted := 0, unchanged := t.converted + t.unchanged, deleted := 0 }

variable (t : Tally)

@[simp] theorem repeated_deal (tags same : Bool) :
    (t.deal tags same).repeated = t.repeated.deal tags true := by
  cases same with
  | true => rfl
  | false => simp only [deal, repeated, Bool.false_eq_true, if_false, if_true, Nat.add_right_comm]

@[simp] theorem repeated_skip (reason : String) :
    (t.skip reason).repeated = t.repeated.skip reason := rfl

theorem repeated_eq_self (hconverted : t.converted = 0) (hdeleted : t.deleted = 0) :
    t.repeated = t := by
  rcases t with ⟨c, u, d, g, k, r⟩
  dsimp only at hconverted hdeleted
  subst hconverted hdeleted
  simp [repeated]

end Tally

/-! ## The accounts of an action -/

namespace Mode

/-- The tag calls that an action makes. -/
def calls (mode : Mode) : Action → List TagCall
  | .convert _ destination rule => if mode.tags then [⟨destination, rule.info.block⟩] else []
  | .delete _ => []
  | .skip _ _ => []

/-- What an action counts if all is found done. -/
def charge (mode : Mode) (t : Tally) : Action → Tally
  | .convert .. => t.deal mode.tags true
  | .delete _ => t
  | .skip _ reason => t.skip reason.words

end Mode

/-- The session `s'` has the accounts of `s` and of some actions after it. -/
structure Session.Carried (mode : Mode) (as : List Action) (s s' : Session) : Prop where
  counts : s'.tally.repeated = as.foldl mode.charge s.tally.repeated
  calls : s'.tagCalls = s.tagCalls ++ as.flatMap mode.calls

namespace Session.Carried

variable {mode : Mode} {as bs : List Action} {s s' s'' : Session}

theorem refl (s : Session) : s.Carried mode [] s := ⟨rfl, by simp⟩

theorem trans (h : s.Carried mode as s') (h' : s'.Carried mode bs s'') :
    s.Carried mode (as ++ bs) s'' := by
  refine ⟨?_, ?_⟩
  · rw [h'.counts, h.counts, List.foldl_append]
  · rw [h'.calls, h.calls, List.flatMap_append, List.append_assoc]

/-- What adds nothing of its own to the accounts. -/
theorem idle (h : s.Carried mode as s') (h' : s'.Carried mode [] s'') :
    s.Carried mode as s'' := by
  simpa using h.trans h'

end Session.Carried

namespace Run

/-! ## The accounts of actions -/

section Actions

variable {mode : Mode} {q : Path} {a : Action} {s s' : Session}

/-- **The accounts of an action** that gets through. -/
theorem Outcome.carried (h : Outcome mode q s a (.ok ()) s') : s.Carried mode [a] s' := by
  cases h with
  | tagged tags placed answer =>
    refine ⟨?_, ?_⟩
    · simp only [List.foldl_cons, List.foldl_nil, Mode.charge, tags, Tally.repeated_deal]
    · rw [Session.tagCalls_tag, tagCalls_placing, List.flatMap_singleton, Mode.calls, if_pos tags]
  | converted tags placed =>
    refine ⟨?_, ?_⟩
    · simp only [List.foldl_cons, List.foldl_nil, Mode.charge, tags, Tally.repeated_deal]
    · rw [tagCalls_placing, List.flatMap_singleton, Mode.calls, if_neg (by simp [tags]),
        List.append_nil]
  | deleted | doomed => exact ⟨rfl, by simp [Session.tagCalls, Mode.calls]⟩
  | skipped => exact ⟨Tally.repeated_skip .., by simp [Session.tagCalls, Mode.calls]⟩

/-- A loop over actions that gets through has the accounts of them all. -/
theorem carried_forM {as : List Action}
    (h : (as.forM (execute mode q)).run s = (.ok (), s')) : s.Carried mode as s' := by
  induction as generalizing s with
  | nil =>
    obtain ⟨-, rfl⟩ := Prod.mk.inj h
    exact .refl s
  | cons a as ih =>
    obtain ⟨_, s₁, hfirst, hrest⟩ := run_bind_eq_ok.mp h
    exact (outcome_execute hfirst).carried.trans (ih hrest)

/-- Deletions add nothing. -/
theorem carried_cleanUp {rules : RuleTable} {T : Path} {plan : Plan}
    (h : (cleanUp rules mode q T plan).run s = (.ok (), s')) : s.Carried mode [] s' := by
  obtain ⟨entries, s₁, hlist, hloop⟩ := run_bind_eq_ok.mp h
  obtain ⟨-, rfl⟩ := list_of_run_ok hlist
  have hcarried := carried_forM hloop
  have hdelete : ∀ a ∈ plan.deletions rules entries, ∃ p, a = .delete p := by
    intro a ha
    obtain ⟨e, -, he⟩ := List.mem_filterMap.mp ha
    unfold Entry.destinationAction? at he
    split at he
    · exact ⟨e.path, (Option.some.inj he).symm⟩
    · simp at he
  refine ⟨?_, ?_⟩
  · rw [hcarried.counts, List.foldl_nil]
    apply List.foldlRecOn (motive := fun t => t = s₁.tally.repeated) _ _ rfl
    rintro t rfl a ha
    obtain ⟨p, rfl⟩ := hdelete a ha
    rfl
  · rw [hcarried.calls, List.flatMap_nil, List.flatMap_eq_nil_iff.mpr]
    intro a ha
    obtain ⟨p, rfl⟩ := hdelete a ha
    rfl

end Actions

/-! ## The accounts of a pass -/

section Pass

variable {layout : Layout} {mode : Mode} {q : Path} {s s' : Session}

/-- **A pass that gets through** has listed its source after making its destination,
and has the accounts of the actions for the entries. -/
theorem carried_pass (hdry : mode.dryRun = false)
    (h : (pass layout mode q).run s = (.ok (), s')) :
    ∃ s₁ entries,
      (makeDirectories ((layout.destinationRoot mode.direction).join q)).run s = (.ok (), s₁) ∧
      s₁.disk.entries ((layout.sourceRoot mode.direction).join q) = .ok entries ∧
      s.Carried mode (entries.map (Entry.sourceAction layout.rules
        ((layout.destinationRoot mode.direction).join q))) s' := by
  obtain ⟨s₁, s₂, entries, hmake, hentries, hloop, hclean⟩ := pass_of_run_ok hdry h
  have hbefore : s.Carried mode [] s₁ := by
    rw [run_makeDirectories] at hmake
    obtain ⟨-, rfl⟩ := Prod.mk.inj hmake
    exact ⟨rfl, by simp [Session.tagCalls]⟩
  exact ⟨s₁, entries, hmake, hentries,
    (hbefore.trans (carried_forM hloop)).idle (carried_cleanUp hclean)⟩

end Pass

end Run

/-! ## The accounts of a run -/

/-- The actions for the source entries of a subdirectory, as they are on the disk. -/
def Layout.work (layout : Layout) (mode : Mode) (d : Disk) (q : Path) : List Action :=
  match d.entries ((layout.sourceRoot mode.direction).join q) with
  | .ok entries => entries.map (Entry.sourceAction layout.rules
      ((layout.destinationRoot mode.direction).join q))
  | .error _ => []

section Run

open Disk

variable {layout : Layout} {mode : Mode} {d e : Disk} {A B : Location} {q : Path} {s : Session}

/-- Two disks with one source have the same work. -/
theorem Disk.Sides.work_eq
    (hd : d.Sides (layout.sourceRoot mode.direction) (layout.destinationRoot mode.direction) A B)
    (he : e.Sides (layout.sourceRoot mode.direction) (layout.destinationRoot mode.direction) A B)
    (hq : q.Inner) (hsame : ∀ x, e.node? (A ++ x) = d.node? (A ++ x)) :
    layout.work mode e q = layout.work mode d q := by
  unfold Layout.work entries
  by_cases hlist : e.Listable A q
  · obtain ⟨-, hlist', hentries⟩ :=
      list_congr hd.plain he.plain hd.source he.source hq hsame (list_join he.plain he.source hq hlist)
    rw [list_join he.plain he.source hq hlist, hlist']
    exact congrArg _ hentries.symm
  · have hlist' : ¬ d.Listable A q := by
      unfold Listable at hlist ⊢
      rwa [hsame] at hlist
    obtain ⟨x, hx⟩ := list_join_error hd.plain hd.source hq hlist'
    obtain ⟨y, hy⟩ := list_join_error he.plain he.source hq hlist
    rw [hx, hy]
    rfl

/-- One pass between two sides. -/
theorem Run.carried_pass_sides {s s' : Session} (hdry : mode.dryRun = false) (hq : q.Inner)
    (hd : s.disk.Sides (layout.sourceRoot mode.direction) (layout.destinationRoot mode.direction)
      A B) (h : (pass layout mode q).run s = (.ok (), s')) :
    s.Carried mode (layout.work mode s.disk q) s' := by
  obtain ⟨s₁, entries, hmake, hentries, hcarried⟩ := carried_pass hdry h
  obtain ⟨-, -, hkept, hgrown⟩ := (ends_makeWay mode layout.rules hd hq).ok hmake
  have hwork : layout.work mode s₁.disk q = layout.work mode s.disk q := by
    apply hd.work_eq (hd.kept hkept) hq
    intro x
    exact hgrown.other (hd.not_prefix x q.names)
  rwa [← hwork, Layout.work, hentries]

/-- **The accounts of a run** that gets through are those of the work that the source
gave at its start. -/
theorem Run.carried_sync (hdry : mode.dryRun = false) (hinner : ∀ q ∈ layout.subdirs, q.Inner)
    (hd : d.Sides (layout.sourceRoot mode.direction) (layout.destinationRoot mode.direction) A B)
    (h : (Run.sync layout mode).run (Session.start d) = (.ok (), s)) :
    (Session.start d).Carried mode (layout.subdirs.flatMap (layout.work mode d)) s := by
  have hends := Run.Ends.forM (f := Run.pass layout mode) (s := Session.start d) layout.subdirs
    (I := fun done s => d.Kept s.disk ∧ (∀ x, s.disk.node? (A ++ x) = d.node? (A ++ x)) ∧
      (Session.start d).Carried mode (done.flatMap (layout.work mode d)) s)
    (E := fun _ _ => True) ⟨⟨rfl, hd.plain, fun _ hm => hm⟩, fun _ => rfl, .refl _⟩ ?_
  · exact (hends.ok h).2.2
  · rintro done q rest s hsplit ⟨hkept, hsource, hcarried⟩
    have hq : q.Inner := hinner q (by simp [hsplit])
    have hs := hd.kept hkept
    have hpass := ends_pass hdry hs hq
    rcases hrun : (pass layout mode q).run s with ⟨e | u, s'⟩
    · exact Ends.of_run_error hrun trivial
    · obtain ⟨-, -, hpassed⟩ := hpass.ok hrun
      have hmore := carried_pass_sides hdry hq hs hrun
      rw [hd.work_eq hs hq hsource] at hmore
      refine Ends.of_run_ok hrun ⟨hkept.trans hpassed.toKept, ?_, ?_⟩
      · intro x
        rw [hpassed.source hs, hsource]
      · simpa using hcarried.trans hmore

end Run

end GuestSync
