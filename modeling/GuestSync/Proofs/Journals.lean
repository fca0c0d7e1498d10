/-
# GuestSync.Proofs.Journals -- the journal tells everything

Every attempt to change the disk stands in the journal before anything comes of it,
so the events that a run adds tell what the run did: carried out one after another
on the disk of its beginning they give the disk of its end, whatever is on the disk,
whichever attempts failed and however the run ended. Nothing is ever taken out of
the journal. What all disks of a run have in common and what all its events have in
common is shown together: a pass sets out to do only what it makes of entries that it
finds on such a disk.
-/
import GuestSync.Proofs.ActionOutcomes

namespace GuestSync

/-- What becomes of a disk in an attempt that may have failed. -/
def Disk.after (d : Disk) : Except OsError Disk → Disk
  | .ok e => e
  | .error _ => d

/-- The disk after an event. A tag changes it only if the disk stores tags and was
asked to. -/
def Event.act (tagger : Tagger) (d : Disk) : Event → Disk
  | .makeDirectories path => (d.makeDirectories path).1
  | .write path content => d.after (d.write path content)
  | .delete path => d.after (d.remove path)
  | .tag call accepted =>
    match tagger, accepted with
    | .disk, true => d.after (d.setTag call.path call.block)
    | _, _ => d
  | .report .. => d
  | .announce _ => d

/-- The session `s'` has added some events to the journal of `s`, and its disk is what
they make of the disk of `s`. -/
structure Session.Led (tagger : Tagger) (es : List Event) (s s' : Session) : Prop where
  journal : s'.journal = s.journal ++ es
  disk : s'.disk = es.foldl (Event.act tagger) s.disk

theorem Session.Led.trans {tagger : Tagger} {es fs : List Event} {s s' s'' : Session}
    (h : s.Led tagger es s') (h' : s'.Led tagger fs s'') : s.Led tagger (es ++ fs) s'' := by
  refine ⟨?_, ?_⟩
  · rw [h'.journal, h.journal, List.append_assoc]
  · rw [h'.disk, h.disk, List.foldl_append]

namespace Run

/-- However the run ends, it has added events that tell what became of the disk. -/
def Journaled {α : Type} (tagger : Tagger) (x : Run α) : Prop :=
  ∀ s : Session, ∃ es, s.Led tagger es (x.run s).2

/-- However the run ends, if its disk had the property `I` then it has added events that
tell what became of the disk and that have the property `P`. -/
def Tells {α : Type} (tagger : Tagger) (I : Disk → Prop) (P : Event → Prop) (x : Run α) : Prop :=
  ∀ s : Session, I s.disk → ∃ es, s.Led tagger es (x.run s).2 ∧ ∀ e ∈ es, P e

section Journaled

variable {α β : Type} {tagger : Tagger}

theorem Journaled.led {x : Run α} (h : Journaled tagger x) {s s' : Session}
    {r : Except Failure α} (hrun : x.run s = (r, s')) : ∃ es, s.Led tagger es s' := by
  have hs := h s
  rwa [hrun] at hs

/-- Events stay in the journal. -/
theorem Journaled.grows {x : Run α} (h : Journaled tagger x) {s s' : Session}
    {r : Except Failure α} (hrun : x.run s = (r, s')) {e : Event} (he : e ∈ s.journal) :
    e ∈ s'.journal := by
  obtain ⟨es, hes⟩ := h.led hrun
  rw [hes.journal]
  exact List.mem_append_left es he

theorem Tells.journaled {x : Run α} (h : Tells tagger (fun _ => True) (fun _ => True) x) :
    Journaled tagger x := by
  intro s
  obtain ⟨es, hes, -⟩ := h s trivial
  exact ⟨es, hes⟩

theorem Journaled.tells {x : Run α} (h : Journaled tagger x) :
    Tells tagger (fun _ => True) (fun _ => True) x := by
  intro s _
  obtain ⟨es, hes⟩ := h s
  exact ⟨es, hes, fun _ _ => trivial⟩

end Journaled

section Rules

variable {α β : Type} {tagger : Tagger} {I : Disk → Prop} {P : Event → Prop}

theorem Tells.mono {Q : Event → Prop} {x : Run α} (h : Tells tagger I P x)
    (hPQ : ∀ e, P e → Q e) : Tells tagger I Q x := by
  intro s hs
  obtain ⟨es, hes, hall⟩ := h s hs
  exact ⟨es, hes, fun e he => hPQ e (hall e he)⟩

/-- A run that has not touched the disk or the journal. -/
theorem Tells.of_still {x : Run α}
    (h : ∀ s, (x.run s).2.journal = s.journal ∧ (x.run s).2.disk = s.disk) :
    Tells tagger I P x := by
  intro s _
  exact ⟨[], ⟨by rw [(h s).1, List.append_nil], (h s).2⟩, by simp⟩

theorem Tells.pure (a : α) : Tells tagger I P (pure a : Run α) := .of_still fun _ => ⟨rfl, rfl⟩

theorem Tells.get : Tells tagger I P (get : Run Session) := .of_still fun _ => ⟨rfl, rfl⟩

theorem Tells.makeDirectories (path : Path) (hp : P (.makeDirectories path)) :
    Tells tagger I P (makeDirectories path) := by
  intro s _
  refine ⟨[.makeDirectories path], ?_, List.forall_mem_singleton.mpr hp⟩
  rw [run_makeDirectories]
  exact ⟨rfl, rfl⟩

/-- What is done with entries is done with entries of a disk that has the property. -/
theorem Tells.list_bind {dir : Path} {f : List Entry → Run β}
    (hf : ∀ d es, I d → d.entries dir = .ok es → Tells tagger I P (f es)) :
    Tells tagger I P (list dir >>= f) := by
  intro s hs
  rw [run_bind]
  rcases hr : (list dir).run s with ⟨e | es, s'⟩
  · rw [run_list] at hr
    cases hlist : s.disk.list dir with
    | ok ns =>
      rw [hlist] at hr
      cases (Prod.mk.inj hr).1
    | error e =>
      rw [hlist] at hr
      obtain ⟨-, rfl⟩ := Prod.mk.inj hr
      exact ⟨[], ⟨by simp, rfl⟩, by simp⟩
  · obtain ⟨hentries, rfl⟩ := list_of_run_ok hr
    exact hf _ es hs hentries _ hs

end Rules

/-! ## Actions, passes and runs -/

section Kept

variable {α β : Type} {tagger : Tagger} {I : Disk → Prop} {P : Event → Prop}
variable (hkept : ∀ d e, I d → P e → I (Event.act tagger d e))

include hkept

/-- The property of disks is one of the disk that events lead to. -/
theorem kept_of_led {es : List Event} {s s' : Session} (h : s.Led tagger es s') (hs : I s.disk)
    (hes : ∀ e ∈ es, P e) : I s'.disk := by
  rw [h.disk]
  clear h
  generalize s.disk = d at hs
  induction es generalizing d with
  | nil => exact hs
  | cons e es ih =>
    exact ih (fun e he => hes e (by simp [he])) _ (hkept d e hs (hes e (by simp)))

theorem Tells.bind {x : Run α} {f : α → Run β} (hx : Tells tagger I P x)
    (hf : ∀ a, Tells tagger I P (f a)) : Tells tagger I P (x >>= f) := by
  intro s hs
  obtain ⟨es, hes, hall⟩ := hx s hs
  rw [run_bind]
  rcases hr : x.run s with ⟨e | a, s'⟩ <;> rw [hr] at hes
  · exact ⟨es, hes, hall⟩
  · obtain ⟨fs, hfs, hall'⟩ := hf a s' (kept_of_led hkept hes hs hall)
    refine ⟨es ++ fs, hes.trans hfs, ?_⟩
    intro e he
    exact (List.mem_append.mp he).elim (hall e) (hall' e)

theorem Tells.forM {f : α → Run Unit} (as : List α) (hf : ∀ a ∈ as, Tells tagger I P (f a)) :
    Tells tagger I P (as.forM f) := by
  induction as with
  | nil => exact Tells.pure ()
  | cons a r ih =>
    exact (hf a (by simp)).bind hkept fun _ => ih fun b hb => hf b (by simp [hb])

end Kept

end Run

/-- Whatever the action sets out to do has the property. -/
def Action.Only (P : Event → Prop) : Action → Prop
  | .convert _ destination rule =>
    (∀ content, P (.write destination content)) ∧
      ∀ accepted, P (.tag ⟨destination, rule.info.block⟩ accepted)
  | .delete path => P (.delete path)
  | .skip .. => True

/-! ## The events of an action -/

section Outcomes

variable {mode : Mode} {q source destination : Path} {rule : Rule} {a : Action} {d e : Disk}
variable {output : Bytes} {same : Bool} {result : Except Failure Unit} {s s' : Session}
variable {P : Event → Prop}

/-- What is told of a file that gets into place makes the disk on which it is there. -/
theorem Mode.Placed.act (h : mode.Placed source destination rule d output same e)
    (tagger : Tagger) :
    (mode.placing q destination rule output same).foldl (Event.act tagger) d = e := by
  cases h with
  | found converts same => simp [Mode.placing, Event.act]
  | written real converts differs write =>
    simp [Mode.placing, Event.act, real, write, Disk.after]
  | foreseen dry => simp [Mode.placing, Event.act, dry]

theorem Event.act_refused (tagger : Tagger) (d : Disk) (call : TagCall) :
    (Event.tag call false).act tagger d = d := by
  cases tagger <;> rfl

/-- A call that is accepted makes the disk that the tagger answers with. -/
theorem Event.act_accepted {tagger : Tagger} {before : List TagCall} {call : TagCall}
    (h : tagger.answer d before call = .ok e) : (Event.tag call true).act tagger d = e := by
  obtain ⟨rfl, htag⟩ | ⟨⟨refusal, rfl⟩, rfl⟩ := Tagger.answer_ok h
  · simp only [act, htag, Disk.after]
  · rfl

theorem Mode.placing_only (hreport : ∀ dryRun p, P (.report dryRun p))
    (h : (Action.convert source destination rule).Only P) :
    ∀ ev ∈ mode.placing q destination rule output same, P ev := by
  refine List.forall_mem_cons.mpr ⟨hreport _ _, ?_⟩
  split
  · simp
  · exact List.forall_mem_singleton.mpr (h.1 output)

/-- **The events of an action** tell what became of the disk, and are reports and what the
action sets out to do. -/
theorem Run.Outcome.led (h : Run.Outcome mode q s a result s')
    (hreport : ∀ dryRun p, P (.report dryRun p)) (ha : a.Only P) :
    ∃ es, s.Led mode.tagger es s' ∧ ∀ ev ∈ es, P ev := by
  cases h with
  | unread | unconverted | uncompared =>
    exact ⟨[], ⟨(List.append_nil _).symm, rfl⟩, by simp⟩
  | unwritten real converts differs write =>
    exact ⟨_, ⟨rfl, by simp [Mode.placing, Event.act, real, write, Disk.after]⟩,
      Mode.placing_only hreport ha⟩
  | refused tags placed answer =>
    refine ⟨_, ⟨List.append_assoc .., ?_⟩, ?_⟩
    · rw [List.foldl_append, placed.act]
      exact (Event.act_refused ..).symm
    · exact List.forall_mem_append.mpr
        ⟨Mode.placing_only hreport ha, List.forall_mem_singleton.mpr (ha.2 false)⟩
  | tagged tags placed answer =>
    refine ⟨_, ⟨List.append_assoc .., ?_⟩, ?_⟩
    · rw [List.foldl_append, placed.act]
      exact (Event.act_accepted answer).symm
    · exact List.forall_mem_append.mpr
        ⟨Mode.placing_only hreport ha, List.forall_mem_singleton.mpr (ha.2 true)⟩
  | converted tags placed => exact ⟨_, ⟨rfl, (placed.act _).symm⟩, Mode.placing_only hreport ha⟩
  | undeleted real remove | deleted real remove =>
    exact ⟨_, ⟨rfl, by simp [Event.act, remove, Disk.after]⟩,
      List.forall_mem_cons.mpr ⟨hreport _ _, List.forall_mem_singleton.mpr ha⟩⟩
  | doomed | skipped =>
    exact ⟨_, ⟨rfl, rfl⟩, List.forall_mem_singleton.mpr (hreport _ _)⟩

end Outcomes

namespace Run

section Runs

variable {layout : Layout} {mode : Mode} {q : Path} {I : Disk → Prop} {P : Event → Prop}
variable (hkept : ∀ d e, I d → P e → I (Event.act mode.tagger d e))
variable (hreport : ∀ dryRun p, P (.report dryRun p))

include hreport in
theorem tells_execute {a : Action} (h : a.Only P) : Tells mode.tagger I P (execute mode q a) :=
  fun _ _ => (outcome_execute rfl).led hreport h

include hkept hreport

theorem tells_loop {as : List Action} (h : ∀ a ∈ as, a.Only P) :
    Tells mode.tagger I P (as.forM (execute mode q)) :=
  .forM hkept as fun a ha => tells_execute hreport (h a ha)

theorem tells_cleanUp {rules : RuleTable} {T : Path} {plan : Plan}
    (h : ∀ d es, I d → d.entries T = .ok es → ∀ a ∈ plan.deletions rules es, a.Only P) :
    Tells mode.tagger I P (cleanUp rules mode q T plan) := by
  apply Tells.list_bind
  intro d es hd hes
  exact tells_loop hkept hreport (h d es hd hes)

/-- **What a pass sets out to do**: to make its destination directory, and what its plan
says of the entries that it finds. -/
theorem tells_pass
    (hmake : P (.makeDirectories ((layout.destinationRoot mode.direction).join q)))
    (hsource : ∀ d es, I d → d.entries ((layout.sourceRoot mode.direction).join q) = .ok es →
      ∀ e ∈ es, (e.sourceAction layout.rules
        ((layout.destinationRoot mode.direction).join q)).Only P)
    (hdestination : ∀ d es (plan : Plan), I d →
      d.entries ((layout.destinationRoot mode.direction).join q) = .ok es →
        ∀ a ∈ plan.deletions layout.rules es, a.Only P) :
    Tells mode.tagger I P (pass layout mode q) := by
  have hwork : Tells mode.tagger I P (do
      let entries ← list ((layout.sourceRoot mode.direction).join q)
      let plan := Plan.ofSource layout.rules ((layout.destinationRoot mode.direction).join q) entries
      plan.actions.forM (execute mode q)
      if mode.dryRun && !(← get).disk.isDirectory ((layout.destinationRoot mode.direction).join q) then
        return ()
      else
        cleanUp layout.rules mode q ((layout.destinationRoot mode.direction).join q) plan) := by
    apply Tells.list_bind
    intro d es hd hes
    dsimp only
    refine (tells_loop hkept hreport ?_).bind hkept fun _ => ?_
    · rw [Plan.ofSource_actions]
      intro a ha
      obtain ⟨e, he, rfl⟩ := List.mem_map.mp ha
      exact hsource d es hd hes e he
    · apply Tells.get.bind hkept
      intro s
      split
      · exact .pure ()
      · exact tells_cleanUp hkept hreport fun d es hd hes => hdestination d es _ hd hes
  unfold pass
  dsimp only
  split
  · exact hwork
  · exact (Tells.makeDirectories _ hmake).bind hkept fun _ => hwork

end Runs

/-! ## The journal of any run -/

section Journals

variable (layout : Layout) (mode : Mode) (q : Path)

theorem Journaled.bind {α β : Type} {tagger : Tagger} {x : Run α} {f : α → Run β}
    (hx : Journaled tagger x) (hf : ∀ a, Journaled tagger (f a)) : Journaled tagger (x >>= f) :=
  (hx.tells.bind (fun _ _ _ _ => trivial) fun a => (hf a).tells).journaled

theorem Journaled.forM {α : Type} {tagger : Tagger} {f : α → Run Unit} (as : List α)
    (hf : ∀ a, Journaled tagger (f a)) : Journaled tagger (as.forM f) :=
  (Tells.forM (fun _ _ _ _ => trivial) as fun a _ => (hf a).tells).journaled

private theorem only_true (a : Action) : a.Only fun _ => True := by
  cases a <;> simp [Action.Only]

theorem journaled_execute (a : Action) : Journaled mode.tagger (execute mode q a) :=
  (tells_execute (fun _ _ => trivial) (only_true a)).journaled

theorem journaled_loop (as : List Action) : Journaled mode.tagger (as.forM (execute mode q)) :=
  .forM as (journaled_execute mode q)

theorem journaled_cleanUp (rules : RuleTable) (T : Path) (plan : Plan) :
    Journaled mode.tagger (cleanUp rules mode q T plan) :=
  (tells_cleanUp (fun _ _ _ _ => trivial) (fun _ _ => trivial)
    fun _ _ _ _ a _ => only_true a).journaled

theorem journaled_pass : Journaled mode.tagger (pass layout mode q) :=
  (tells_pass (fun _ _ _ _ => trivial) (fun _ _ => trivial) trivial
    (fun _ _ _ _ _ _ => only_true _) fun _ _ _ _ _ a _ => only_true a).journaled

/-- **The journal of a run** tells what became of the disk. -/
theorem journaled_sync : Journaled mode.tagger (sync layout mode) :=
  .forM _ (journaled_pass layout mode)

end Journals

end Run

end GuestSync
