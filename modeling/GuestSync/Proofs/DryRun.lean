/-
# GuestSync.Proofs.DryRun -- a dry run only looks

A run is idle if it leaves the disk as it was and asks no tagger anything,
whatever session it starts in and however it ends. Looking is idle, and what is put
together from idle runs is idle. In a dry run every action is, on any disk, and so is
the whole run. A dry run does not depend on its tagger either.
-/
import GuestSync.Proofs.ActionOutcomes

namespace GuestSync.Run

/-- The run leaves the disk as it was and asks no tagger. -/
def Idle {α : Type} (x : Run α) : Prop :=
  ∀ s, (x.run s).2.disk = s.disk ∧ (x.run s).2.tagCalls = s.tagCalls

variable {α β : Type}

theorem Idle.pure (a : α) : Idle (pure a : Run α) := fun _ => ⟨rfl, rfl⟩

theorem Idle.get : Idle (get : Run Session) := fun _ => ⟨rfl, rfl⟩

theorem Idle.bind {x : Run α} {f : α → Run β} (hx : Idle x) (hf : ∀ a, Idle (f a)) :
    Idle (x >>= f) := by
  intro s
  have hs := hx s
  rw [run_bind]
  rcases hr : x.run s with ⟨e | a, s'⟩ <;> rw [hr] at hs
  · exact hs
  · exact ⟨((hf a) s').1.trans hs.1, ((hf a) s').2.trans hs.2⟩

theorem Idle.forM {f : α → Run Unit} (as : List α) (hf : ∀ a ∈ as, Idle (f a)) :
    Idle (as.forM f) := by
  induction as with
  | nil => exact Idle.pure ()
  | cons a r ih => exact (hf a (by simp)).bind fun _ => ih fun b hb => hf b (by simp [hb])

theorem Idle.list (dir : Path) : Idle (list dir) := by
  intro s
  rw [run_list]
  cases s.disk.list dir <;> exact ⟨rfl, rfl⟩

section DryRun

variable {mode : Mode} (hdry : mode.dryRun = true)

include hdry

theorem idle_execute (subdir : Path) (a : Action) : Idle (execute mode subdir a) := by
  intro s
  rcases hrun : (execute mode subdir a).run s with ⟨result, s'⟩
  cases outcome_execute hrun with
  | unread | unconverted | uncompared => exact ⟨rfl, rfl⟩
  | unwritten real | undeleted real | deleted real => simp [hdry] at real
  | refused tags | tagged tags => simp [Mode.tags, hdry] at tags
  | converted tags placed => exact ⟨placed.dry hdry, tagCalls_placing _ _⟩
  | doomed | skipped => exact ⟨rfl, by simp [Session.tagCalls]⟩

theorem idle_pass (layout : Layout) (q : Path) : Idle (pass layout mode q) := by
  have hloop : ∀ as : List Action, Idle (as.forM (execute mode q)) := by
    intro as
    exact Idle.forM as fun a _ => idle_execute hdry q a
  unfold pass
  rw [hdry, if_pos rfl]
  apply (Idle.list _).bind
  intro entries
  apply (hloop _).bind
  intro _
  apply Idle.get.bind
  intro s
  split
  · exact Idle.pure _
  · exact (Idle.list _).bind fun _ => hloop _

/-- **A dry run only looks.** -/
theorem idle_sync (layout : Layout) : Idle (sync layout mode) :=
  Idle.forM _ fun q _ => idle_pass hdry layout q

/-! ## The tagger of a dry run -/

variable (tagger : Tagger)

theorem execute_tagger (subdir : Path) (a : Action) :
    execute { mode with tagger } subdir a = execute mode subdir a := by
  cases a with
  | convert source destination rule =>
    simp only [execute, convertFile, hdry, Bool.not_true, Bool.false_and, Bool.false_eq_true,
      if_false]
  | delete path => rfl
  | skip path reason => rfl

/-- It makes no difference who would answer the tag calls. -/
theorem sync_tagger (layout : Layout) : sync layout { mode with tagger } = sync layout mode := by
  have hexecute : ∀ q, execute { mode with tagger } q = execute mode q := by
    intro q
    funext a
    exact execute_tagger hdry tagger q a
  unfold sync pass cleanUp
  simp only [hexecute]

end DryRun

/-! ## Calls by themselves -/

/-- The session after some calls, made one after another whatever becomes of each. -/
def executeAll (calls : List (Mode × Path × Action)) (s : Session) : Session :=
  calls.foldl (fun s call => ((execute call.1 call.2.1 call.2.2).run s).2) s

theorem executeAll_idle {calls : List (Mode × Path × Action)}
    (hdry : ∀ call ∈ calls, call.1.dryRun = true) (s : Session) :
    (executeAll calls s).disk = s.disk ∧ (executeAll calls s).tagCalls = s.tagCalls := by
  induction calls generalizing s with
  | nil => exact ⟨rfl, rfl⟩
  | cons call rest ih =>
    obtain ⟨hdisk, htags⟩ := idle_execute (hdry call (by simp)) call.2.1 call.2.2 s
    obtain ⟨hdisk', htags'⟩ := ih (fun c hc => hdry c (by simp [hc])) _
    exact ⟨hdisk'.trans hdisk, htags'.trans htags⟩

/-- **Dry runs and dry calls touch nothing.** From any session, whatever is on its
disk and however they end, they leave the disk as it was and ask no tagger; and
they would do the same with any other tagger. -/
theorem dry_run_touches_nothing :
    (∀ (layout : Layout) (mode : Mode) (s : Session), mode.dryRun = true →
      ((sync layout mode).run s).2.disk = s.disk ∧
        ((sync layout mode).run s).2.tagCalls = s.tagCalls) ∧
    (∀ (calls : List (Mode × Path × Action)) (s : Session),
      (∀ call ∈ calls, call.1.dryRun = true) →
      (executeAll calls s).disk = s.disk ∧ (executeAll calls s).tagCalls = s.tagCalls) ∧
    ∀ (mode : Mode) (tagger : Tagger), mode.dryRun = true →
      (∀ layout, sync layout { mode with tagger } = sync layout mode) ∧
        ∀ subdir a, execute { mode with tagger } subdir a = execute mode subdir a := by
  refine ⟨?_, ?_, ?_⟩
  · intro layout mode s hdry
    exact idle_sync hdry layout s
  · intro calls s hdry
    exact executeAll_idle hdry s
  · intro mode tagger hdry
    exact ⟨sync_tagger hdry tagger, execute_tagger hdry tagger⟩

end GuestSync.Run

namespace GuestSync.Sample

/-- The local root is a link to the guest root, which holds a pipe and a link that
leads nowhere. -/
def tangled : Disk where
  start := []
  nodes := [([Utf8.ofString "local"], .link (Path.ofString "guest")),
    ([Utf8.ofString "guest"], .directory),
    ([Utf8.ofString "guest", Utf8.ofString "a.c"], .file (Utf8.ofString "x\n") none),
    ([Utf8.ofString "guest", Utf8.ofString "b.c"], .fifo),
    ([Utf8.ofString "guest", Utf8.ofString "c.c"], .link (Path.ofString "nowhere"))]

/-- A dry push. -/
def dryPush : Mode := ⟨.push, true, .disk⟩

/-- A tagger that refuses every call. -/
def unwilling : Tagger := .listener fun _ _ _ => some "no"

end GuestSync.Sample

namespace GuestSync.Run

/-- A dry push of a link to its own destination fails at the first subdirectory that
is missing, and a dry call fails that reads a pipe; neither touches anything. -/
theorem dry_run_touches_nothing_sample :
    (((sync (Layout.standard (Path.ofString "local") (Path.ofString "guest")) Sample.dryPush).run
        (Session.start Sample.tangled)).2.disk = Sample.tangled) ∧
    ((executeAll [(Sample.dryPush, Path.ofString ".", .convert (Path.ofString "local/b.c")
        (Path.ofString "guest/b.c") RuleTable.sourceText)] (Session.start Sample.tangled)).disk =
      Sample.tangled) ∧
    sync (Layout.standard (Path.ofString "local") (Path.ofString "guest"))
        ⟨.push, true, Sample.unwilling⟩ =
      sync (Layout.standard (Path.ofString "local") (Path.ofString "guest")) Sample.dryPush := by
  obtain ⟨hsync, hcalls, htagger⟩ := dry_run_touches_nothing
  refine ⟨(hsync _ Sample.dryPush (Session.start Sample.tangled) rfl).1, ?_, ?_⟩
  · exact (hcalls _ (Session.start Sample.tangled) (by simp [Sample.dryPush])).1
  · exact (htagger Sample.dryPush Sample.unwilling rfl).1 _

end GuestSync.Run
