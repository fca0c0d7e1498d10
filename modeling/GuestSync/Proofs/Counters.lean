/-
# GuestSync.Proofs.Counters -- every entry counts once

Whatever an action is about, it counts once if it gets through and not at all if it fails.
So the counts fit each other after any calls, on whatever disks these are made, and a run
that gets through has counted every entry that it listed in the source, and has said one
line for every entry that it counted.
-/
import GuestSync.Proofs.RunVisits
import GuestSync.Proofs.SyncEffect

namespace GuestSync

/-! ## Counts that fit each other -/

namespace Tally

/-- The number of entries that were dealt with. -/
def entries (t : Tally) : Nat := t.converted + t.unchanged + t.deleted + t.skipped

/-- The number of source entries that were dealt with. -/
def sources (t : Tally) : Nat := t.converted + t.unchanged + t.skipped

variable (reason : String) (reasons : List (String × Nat))

theorem sources_deal (t : Tally) (tags same : Bool) :
    (t.deal tags same).sources = t.sources + 1 := by
  cases same <;> simp only [sources, deal, if_true, Bool.false_eq_true, if_false] <;> omega

theorem sum_bump : ((bump reason reasons).map Prod.snd).sum = (reasons.map Prod.snd).sum + 1 := by
  induction reasons with
  | nil => rfl
  | cons r rest ih =>
    unfold bump
    split
    · simp only [List.map_cons, List.sum_cons]
      omega
    · simp only [List.map_cons, List.sum_cons, ih]
      omega

theorem pos_of_mem_bump (h : ∀ r ∈ reasons, 0 < r.2) : ∀ r ∈ bump reason reasons, 0 < r.2 := by
  induction reasons with
  | nil => simp [bump]
  | cons r rest ih =>
    rw [List.forall_mem_cons] at h
    unfold bump
    split
    · exact List.forall_mem_cons.mpr ⟨Nat.succ_pos _, h.2⟩
    · exact List.forall_mem_cons.mpr ⟨h.1, ih h.2⟩

end Tally

/-- The counts of a run fit each other: the skipped entries are those that some reason was
given for, and as many files were tagged as were dealt with in a push that is no dry run,
and none in other runs. -/
structure Mode.Accounted (mode : Mode) (t : Tally) : Prop where
  skipped : t.skipped = (t.reasons.map Prod.snd).sum
  positive : ∀ r ∈ t.reasons, 0 < r.2
  tagged : t.tagged =
    if mode.direction = .push ∧ mode.dryRun = false then t.converted + t.unchanged else 0

namespace Mode.Accounted

variable {mode : Mode} {t : Tally}

theorem zero (mode : Mode) : mode.Accounted .zero := by
  refine ⟨rfl, nofun, ?_⟩
  split <;> rfl

theorem deal (h : mode.Accounted t) (same : Bool) : mode.Accounted (t.deal mode.tags same) := by
  refine ⟨h.skipped, h.positive, ?_⟩
  have htagged := h.tagged
  by_cases htags : mode.tags = true
  · rw [if_pos (mode.tags_eq.mp htags)] at htagged ⊢
    cases same <;> simp only [Tally.deal, htags, htagged, if_true, Bool.false_eq_true, if_false] <;>
      omega
  · rw [if_neg (mt mode.tags_eq.mpr htags)] at htagged ⊢
    rwa [Tally.deal, if_neg htags]

theorem skip (h : mode.Accounted t) (reason : String) : mode.Accounted (t.skip reason) := by
  refine ⟨?_, Tally.pos_of_mem_bump _ _ h.positive, h.tagged⟩
  rw [Tally.skip, Tally.sum_bump, h.skipped]

theorem delete (h : mode.Accounted t) :
    mode.Accounted { t with deleted := t.deleted + 1 } := ⟨h.skipped, h.positive, h.tagged⟩

end Mode.Accounted

/-! ## Calls by themselves -/

namespace Run

section Outcomes

variable {mode : Mode} {q : Path} {a : Action} {result : Except Failure Unit} {s s' : Session}

/-- However an action ends, the counts fit each other. -/
theorem Outcome.accounted (h : Outcome mode q s a result s') (hs : mode.Accounted s.tally) :
    mode.Accounted s'.tally := by
  cases h with
  | tagged tags placed answer => exact tags ▸ hs.deal _
  | converted tags placed => exact tags ▸ hs.deal _
  | deleted | doomed => exact hs.delete
  | skipped => exact hs.skip _
  | _ => exact hs

/-- An action that gets through counts once. -/
theorem Outcome.entries_of_ok (h : Outcome mode q s a (.ok ()) s') :
    s'.tally.entries = s.tally.entries + 1 := by
  cases h with
  | @tagged _ _ _ _ same => cases same <;> simp [Tally.entries, Tally.deal] <;> omega
  | @converted _ _ _ _ same => cases same <;> simp [Tally.entries, Tally.deal] <;> omega
  | deleted | doomed | skipped =>
    simp only [Tally.entries, Tally.skip]
    omega

/-- An action that fails does not count. -/
theorem Outcome.tally_of_error {e : Failure} (h : Outcome mode q s a (.error e) s') :
    s'.tally = s.tally := by
  cases h <;> rfl

end Outcomes

/-- A call to carry out an action, and the disk on which it is made. -/
structure Call where
  disk : Disk
  subdir : Path
  action : Action

/-- What becomes of a call. -/
def call (mode : Mode) (c : Call) (s : Session) : Except Failure Unit × Session :=
  (execute mode c.subdir c.action).run { s with disk := c.disk }

/-- The session after some calls, made one after another whatever becomes of each. -/
def callAll (mode : Mode) (calls : List Call) (s : Session) : Session :=
  calls.foldl (fun s c => (call mode c s).2) s

theorem accounted_callAll {mode : Mode} (calls : List Call) {s : Session}
    (hs : mode.Accounted s.tally) : mode.Accounted (callAll mode calls s).tally := by
  induction calls generalizing s with
  | nil => exact hs
  | cons c calls ih =>
    have hone : Outcome mode c.subdir { s with disk := c.disk } c.action (call mode c s).1
        (call mode c s).2 := outcome_execute rfl
    exact ih (hone.accounted hs)

end Run

/-! ## Entries and lines of a run -/

/-- From the session `s` to the session `s'` a run has got through `n` source entries, and
has said a line for every entry that it has counted. -/
structure Session.Dealt (n : Nat) (s s' : Session) : Prop where
  sources : s'.tally.sources = s.tally.sources + n
  lines : s'.outputLines.length + s.tally.entries = s.outputLines.length + s'.tally.entries

namespace Session.Dealt

variable {n m : Nat} {s s' s'' : Session}

theorem refl (s : Session) : s.Dealt 0 s := ⟨rfl, rfl⟩

theorem trans (h : s.Dealt n s') (h' : s'.Dealt m s'') : s.Dealt (n + m) s'' := by
  refine ⟨?_, ?_⟩
  · rw [h'.sources, h.sources, Nat.add_assoc]
  · have hlines := h.lines
    have hlines' := h'.lines
    omega

/-- What counts nothing and says nothing. -/
theorem of_eq (htally : s'.tally = s.tally) (hlines : s'.outputLines = s.outputLines) :
    s.Dealt 0 s' := ⟨by rw [htally]; rfl, by rw [htally, hlines]⟩

end Session.Dealt

/-- The number of source entries that an action is for. -/
def Action.sources : Action → Nat
  | .delete _ => 0
  | _ => 1

namespace Run

section Outcomes

variable {mode : Mode} {q : Path} {a : Action} {s s' : Session}

theorem outputLines_tag (d : Disk) (tally : Tally) (journal : List Event)
    (call : TagCall) (accepted : Bool) :
    (Session.mk d tally (journal ++ [.tag call accepted])).outputLines =
      (Session.mk d tally journal).outputLines := by
  simp [Session.outputLines]

/-- Up to the tag a conversion says one line. -/
theorem length_outputLines_placing (d : Disk) (tally : Tally) (destination : Path) (rule : Rule)
    (output : Bytes) (same : Bool) :
    (Session.mk d tally
        (s.journal ++ mode.placing q destination rule output same)).outputLines.length =
      s.outputLines.length + 1 := by
  unfold Session.outputLines Mode.placing
  cases mode.dryRun || same <;> simp

/-- An action that gets through says one line. -/
theorem Outcome.dealt (h : Outcome mode q s a (.ok ()) s') : s.Dealt a.sources s' := by
  have hentries := h.entries_of_ok
  suffices hboth : s'.tally.sources = s.tally.sources + a.sources ∧
      s'.outputLines.length = s.outputLines.length + 1 by
    exact ⟨hboth.1, by rw [hentries, hboth.2]; omega⟩
  cases h with
  | tagged tags placed answer =>
    refine ⟨Tally.sources_deal .., ?_⟩
    rw [outputLines_tag, length_outputLines_placing]
  | converted tags placed => exact ⟨Tally.sources_deal .., length_outputLines_placing ..⟩
  | deleted | doomed => exact ⟨rfl, by simp [Session.outputLines]⟩
  | skipped => exact ⟨(Nat.add_assoc ..).symm, by simp [Session.outputLines]⟩

/-- A loop that gets through has got through what each of its elements was for. -/
theorem dealt_forM {α : Type} {f : α → Run Unit} {n : α → Session → Nat}
    (h : ∀ a s s', (f a).run s = (.ok (), s') → s.Dealt (n a s) s') {as : List α}
    (hrun : (as.forM f).run s = (.ok (), s')) :
    s.Dealt ((visits f as s).map fun v => n v.1 v.2).sum s' := by
  induction as generalizing s with
  | nil =>
    obtain ⟨-, rfl⟩ := Prod.mk.inj hrun
    exact .refl s
  | cons a as ih =>
    obtain ⟨_, s₁, hfirst, hrest⟩ := run_bind_eq_ok.mp hrun
    rw [visits_cons_ok hfirst, List.map_cons, List.sum_cons]
    exact (h a s s₁ hfirst).trans (ih hrest)

/-- A loop over actions that gets through has got through the source entries that they are
for. -/
theorem dealt_loop {as : List Action} (h : (as.forM (execute mode q)).run s = (.ok (), s')) :
    s.Dealt (as.map Action.sources).sum s' := by
  have hdealt := dealt_forM (n := fun a _ => a.sources)
    (fun a s s' hrun => (outcome_execute hrun).dealt) h
  rwa [← Function.comp_def Action.sources Prod.fst, ← List.map_map, map_fst_visits h] at hdealt

end Outcomes

end Run

namespace Layout

/-- The entries that a pass lists in the source. -/
def listed (layout : Layout) (mode : Mode) (q : Path) (s : Session) : List Entry :=
  match (layout.opening mode q).run s with
  | (.ok entries, _) => entries
  | (.error _, _) => []

section Passes

variable {layout : Layout} {mode : Mode} {q : Path} {entries : List Entry} {s s' : Session}

theorem dealt_opening (h : (layout.opening mode q).run s = (.ok entries, s')) : s.Dealt 0 s' := by
  have hlist : ∀ {t t'}, (Run.list ((layout.sourceRoot mode.direction).join q)).run t =
      (.ok entries, t') → t.Dealt 0 t' := by
    intro t t' hrun
    obtain ⟨-, rfl⟩ := Run.list_of_run_ok hrun
    exact .refl t'
  unfold opening at h
  dsimp only at h
  split at h
  · exact hlist h
  · obtain ⟨_, s₁, hmake, hrest⟩ := Run.run_bind_eq_ok.mp h
    rw [Run.run_makeDirectories] at hmake
    obtain ⟨-, rfl⟩ := Prod.mk.inj hmake
    refine Session.Dealt.trans ?_ (hlist hrest)
    exact .of_eq rfl (by simp [Session.outputLines])

theorem dealt_deal (h : (layout.deal mode q entries).run s = (.ok (), s')) :
    s.Dealt entries.length s' := by
  have hone : ∀ e : Entry, (e.sourceAction layout.rules
      ((layout.destinationRoot mode.direction).join q)).sources = 1 := by
    intro e
    unfold Entry.sourceAction
    cases e.verdict layout.rules <;> rfl
  have hdealt := Run.dealt_loop h
  rw [List.map_map, Function.comp_def] at hdealt
  simpa [hone] using hdealt

theorem dealt_closing (h : (layout.closing mode q entries).run s = (.ok (), s')) :
    s.Dealt 0 s' := by
  unfold closing at h
  rw [Run.run_bind_ok (Run.run_get s)] at h
  split at h
  · obtain ⟨-, rfl⟩ := Prod.mk.inj h
    exact .refl s
  · obtain ⟨stale, s₁, hlist, hloop⟩ := Run.run_bind_eq_ok.mp h
    obtain ⟨-, rfl⟩ := Run.list_of_run_ok hlist
    have hdealt := Run.dealt_loop hloop
    rw [Plan.deletions_ofSource, List.map_map, Function.comp_def] at hdealt
    simpa [Action.sources] using hdealt

/-- A pass that gets through has listed its source. -/
theorem opening_listed (h : (Run.pass layout mode q).run s = (.ok (), s')) :
    ∃ t, (layout.opening mode q).run s = (.ok (layout.listed mode q s), t) := by
  rw [pass_eq] at h
  obtain ⟨entries, t, hopening, -⟩ := Run.run_bind_eq_ok.mp h
  exact ⟨t, by rw [listed, hopening]⟩

/-- A pass that gets through has got through the entries that it has listed. -/
theorem dealt_pass (h : (Run.pass layout mode q).run s = (.ok (), s')) :
    s.Dealt (layout.listed mode q s).length s' := by
  rw [pass_eq] at h
  obtain ⟨entries, s₁, hopening, hrest⟩ := Run.run_bind_eq_ok.mp h
  obtain ⟨_, s₂, hdeal, hclosing⟩ := Run.run_bind_eq_ok.mp hrest
  have hdealt := ((dealt_opening hopening).trans (dealt_deal hdeal)).trans (dealt_closing hclosing)
  rw [listed, hopening]
  simpa using hdealt

end Passes

end Layout

/-- **Every entry counts once.** Carried out one after another from counts of zero, on any
disks and whatever becomes of each, actions leave counts that fit each other, and the next
one counts once if it gets through and not at all if it fails. So a run that gets through
has come to every subdirectory and has listed its source, and the entries that it converted,
found unchanged or skipped are as many as these listings have; and it has said one line for
every entry that it counted. -/
theorem counters_account (layout : Layout) (mode : Mode) (d : Disk) :
    (∀ (calls : List Run.Call) (c : Run.Call),
      mode.Accounted (Run.callAll mode calls (Session.start d)).tally ∧
      (∀ s, Run.call mode c (Run.callAll mode calls (Session.start d)) = (.ok (), s) →
        s.tally.entries = (Run.callAll mode calls (Session.start d)).tally.entries + 1) ∧
      ∀ e s, Run.call mode c (Run.callAll mode calls (Session.start d)) = (.error e, s) →
        s.tally = (Run.callAll mode calls (Session.start d)).tally) ∧
    ∀ s, (Run.sync layout mode).run (Session.start d) = (.ok (), s) →
      (layout.visited mode (Session.start d)).map Prod.fst = layout.subdirs ∧
      (∀ v ∈ layout.visited mode (Session.start d), ∃ t,
        (layout.opening mode v.1).run v.2 = (.ok (layout.listed mode v.1 v.2), t)) ∧
      s.tally.converted + s.tally.unchanged + s.tally.skipped =
        ((layout.visited mode (Session.start d)).map fun v =>
          (layout.listed mode v.1 v.2).length).sum ∧
      s.outputLines.length =
        s.tally.converted + s.tally.unchanged + s.tally.deleted + s.tally.skipped := by
  refine ⟨?_, ?_⟩
  · intro calls c
    refine ⟨Run.accounted_callAll calls (.zero mode), ?_, ?_⟩
    · intro s hcall
      exact (Run.outcome_execute hcall).entries_of_ok
    · intro e s hcall
      exact (Run.outcome_execute hcall).tally_of_error
  · intro s hrun
    have hdealt := Run.dealt_forM (n := fun q s => (layout.listed mode q s).length)
      (fun _ _ _ => Layout.dealt_pass) hrun
    refine ⟨Run.map_fst_visits hrun, ?_, hdealt.sources.trans (Nat.zero_add _),
      hdealt.lines.trans (Nat.zero_add _)⟩
    intro v hv
    obtain ⟨t, hpass⟩ := Run.run_of_visit_ok hv hrun
    exact Layout.opening_listed hpass

namespace Sample

/-- A file that is left alone. -/
def skipping : Run.Call := ⟨disk, Path.ofString ".", .skip (Path.ofString "local/x") .notAFile⟩

/-- A file that is to be deleted and is not there. -/
def failing : Run.Call := ⟨disk, Path.ofString ".", .delete (Path.ofString "guest/x.c")⟩

end Sample

/-- A deletion that fails leaves the counts of the call before; and the push of the sample
counts its one source entry and says a line for that and for its deletion. -/
theorem counters_account_sample :
    (∃ e s, Run.call Sample.push Sample.failing
        (Run.callAll Sample.push [Sample.skipping] (Session.start Sample.disk)) = (.error e, s) ∧
      s.tally.entries = 1) ∧
    (Run.sync Sample.layout Sample.push).run (Session.start Sample.disk) =
        (.ok (), Sample.pushed) ∧
      Sample.pushed.tally.converted + Sample.pushed.tally.unchanged +
        Sample.pushed.tally.skipped = 1 ∧
      Sample.pushed.outputLines.length = 2 := by
  obtain ⟨hcalls, hsync⟩ := counters_account Sample.layout Sample.push Sample.disk
  obtain ⟨-, -, hsources, hlines⟩ := hsync Sample.pushed Sample.run_push
  refine ⟨?_, Sample.run_push, ?_, ?_⟩
  · obtain ⟨-, -, herror⟩ := hcalls [Sample.skipping] Sample.failing
    have hfails : (Run.call Sample.push Sample.failing
        (Run.callAll Sample.push [Sample.skipping] (Session.start Sample.disk))).1 =
          .error (.operation .delete (Path.ofString "guest/x.c") (.system .notFound)) := by
      decide +kernel
    refine ⟨_, _, Prod.ext hfails rfl, ?_⟩
    rw [herror _ _ (Prod.ext hfails rfl)]
    decide +kernel
  · rw [hsources]
    decide +kernel
  · rw [hlines]
    decide +kernel

end GuestSync
