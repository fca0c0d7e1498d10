/-
# GuestSync.Proofs.RunRules -- what comes of a run, step by step

A run started in a session ends in a session, with a result or a failure. The
equations of the first section follow a run from one operation to the next; the
rules of the second speak about both ends at once: `Ends x s Q E` says that the
run ends in `Q` if it gets through and in `E` if it fails. A loop is proved by
an invariant over the entries that are done, and where one fails the loop ends as
that entry did.
-/
import GuestSync.Sync.Run
import Mathlib.Tactic.Common

namespace GuestSync.Run

/-! ## Following a run -/

section Equations

variable {α β : Type} (s : Session)

@[simp] theorem run_pure (a : α) : (pure a : Run α).run s = (.ok a, s) := rfl

@[simp] theorem run_throw (e : Failure) : (throw e : Run α).run s = (.error e, s) := rfl

theorem run_bind (x : Run α) (f : α → Run β) :
    (x >>= f).run s =
      match x.run s with
      | (.ok a, s) => (f a).run s
      | (.error e, s) => (.error e, s) := by
  rw [ExceptT.run_bind]
  simp only [bind, StateT.bind]
  rcases x.run s with ⟨_ | a, s⟩ <;> rfl

theorem run_bind_ok {x : Run α} {f : α → Run β} {s s' : Session} {a : α}
    (h : x.run s = (.ok a, s')) : (x >>= f).run s = (f a).run s' := by
  rw [run_bind, h]

theorem run_bind_error {x : Run α} {f : α → Run β} {s s' : Session} {e : Failure}
    (h : x.run s = (.error e, s')) : (x >>= f).run s = (.error e, s') := by
  rw [run_bind, h]

@[simp] theorem run_get : (get : Run Session).run s = (.ok s, s) := rfl

/-- A look at the session that is not used. -/
theorem get_seq (x : Run α) : (get >>= fun _ => x) = x :=
  ExceptT.ext (StateT.ext fun s => run_bind_ok (run_get s))

@[simp] theorem run_note (e : Event) :
    (note e).run s = (.ok (), { s with journal := s.journal ++ [e] }) := rfl

@[simp] theorem run_count (f : Tally → Tally) :
    (count f).run s = (.ok (), { s with tally := f s.tally }) := rfl

@[simp] theorem run_setDisk (d : Disk) : (setDisk d).run s = (.ok (), { s with disk := d }) := rfl

theorem run_ask (attempt : Attempt) (path : Path) (answer : Disk → Except OsError α) :
    (ask attempt path answer).run s =
      match answer s.disk with
      | .ok a => (.ok a, s)
      | .error e => (.error (.operation attempt path (.system e)), s) := by
  unfold ask
  rw [run_bind, run_get]
  dsimp only
  cases answer s.disk <;> rfl

theorem run_list (dir : Path) :
    (list dir).run s =
      match s.disk.list dir with
      | .ok ns => (.ok (ns.map (s.disk.entry dir)), s)
      | .error e => (.error (.listing dir e), s) := by
  unfold list Disk.entries
  rw [run_bind, run_get]
  dsimp only
  cases s.disk.list dir <;> rfl

theorem run_makeDirectories (path : Path) :
    (makeDirectories path).run s =
      ((match (s.disk.makeDirectories path).2 with
        | .ok () => .ok ()
        | .error e => .error (.operation .makeDirectory path (.system e))),
        { s with
          disk := (s.disk.makeDirectories path).1
          journal := s.journal ++ [.makeDirectories path] }) := by
  unfold makeDirectories
  simp only [run_bind, run_note, run_get, run_setDisk]
  cases (s.disk.makeDirectories path).2 <;> rfl

theorem makeDirectories_of_run_ok {s s' : Session} {path : Path} {u : Unit}
    (h : (makeDirectories path).run s = (.ok u, s')) :
    s.disk.makeDirectories path = (s'.disk, .ok ()) := by
  rw [run_makeDirectories] at h
  rcases hmade : s.disk.makeDirectories path with ⟨d, e | u⟩
  · rw [hmade] at h
    cases (Prod.mk.inj h).1
  · rw [hmade] at h
    obtain ⟨-, rfl⟩ := Prod.mk.inj h
    rfl

theorem run_read (path : Path) :
    (read path).run s =
      match s.disk.read path with
      | .ok content => (.ok content, s)
      | .error e => (.error (.operation .read path (.system e)), s) := by
  rw [read, run_ask]
  cases s.disk.read path <;> rfl

theorem run_holds (path : Path) (content : Bytes) :
    (holds path content).run s =
      match s.disk.read path with
      | .ok existing => (.ok (existing == content), s)
      | .error .notFound => (.ok false, s)
      | .error e => (.error (.operation .read path (.system e)), s) := by
  unfold holds
  rw [run_bind, run_get]
  dsimp only
  cases s.disk.read path with
  | ok existing => rfl
  | error e => cases e <;> rfl

theorem run_write (path : Path) (content : Bytes) :
    (write path content).run s =
      match s.disk.write path content with
      | .ok d => (.ok (), ⟨d, s.tally, s.journal ++ [.write path content]⟩)
      | .error e => (.error (.operation .write path (.system e)),
          ⟨s.disk, s.tally, s.journal ++ [.write path content]⟩) := by
  unfold write
  simp only [run_bind, run_note, run_ask]
  cases s.disk.write path content <;> rfl

theorem run_delete (path : Path) :
    (delete path).run s =
      match s.disk.remove path with
      | .ok d => (.ok (), ⟨d, s.tally, s.journal ++ [.delete path]⟩)
      | .error e => (.error (.operation .delete path (.system e)),
          ⟨s.disk, s.tally, s.journal ++ [.delete path]⟩) := by
  unfold delete
  simp only [run_bind, run_note, run_ask]
  cases s.disk.remove path <;> rfl

theorem run_delete_ok {s : Session} {path : Path} {d : Disk} (h : s.disk.remove path = .ok d) :
    (delete path).run s = (.ok (), ⟨d, s.tally, s.journal ++ [.delete path]⟩) := by
  rw [run_delete, h]

theorem run_tag_disk (call : TagCall) :
    (tag .disk call).run s =
      match s.disk.setTag call.path call.block with
      | .ok d => (.ok (), ⟨d, s.tally, s.journal ++ [.tag call true]⟩)
      | .error e => (.error (.tagging call.path (.system e)),
          ⟨s.disk, s.tally, s.journal ++ [.tag call false]⟩) := by
  unfold tag
  rw [run_bind, run_get]
  dsimp only
  cases s.disk.setTag call.path call.block <;> rfl

theorem run_tag_listener (refusal : Disk → List TagCall → TagCall → Option String)
    (call : TagCall) :
    (tag (.listener refusal) call).run s =
      match refusal s.disk s.tagCalls call with
      | none => (.ok (), ⟨s.disk, s.tally, s.journal ++ [.tag call true]⟩)
      | some words => (.error (.tagging call.path (.refused words)),
          ⟨s.disk, s.tally, s.journal ++ [.tag call false]⟩) := by
  unfold tag
  rw [run_bind, run_get]
  dsimp only
  cases refusal s.disk s.tagCalls call <;> rfl

end Equations

/-! ## What an operation that got through has done -/

/-- A sequence that got through consists of two parts that did. -/
theorem run_bind_eq_ok {α β : Type} {x : Run α} {f : α → Run β} {b : β} {s s' : Session} :
    (x >>= f).run s = (.ok b, s') ↔
      ∃ a s₁, x.run s = (.ok a, s₁) ∧ (f a).run s₁ = (.ok b, s') := by
  rw [run_bind]
  rcases x.run s with ⟨e | a, s₁⟩
  · constructor
    · intro h
      cases (Prod.mk.inj h).1
    · rintro ⟨a, s₂, h, -⟩
      cases (Prod.mk.inj h).1
  · constructor
    · intro h
      exact ⟨a, s₁, rfl, h⟩
    · rintro ⟨a', s₂, h, hf⟩
      obtain ⟨hok, rfl⟩ := Prod.mk.inj h
      obtain rfl := Except.ok.inj hok
      exact hf

section Done

variable {s s' : Session} {path : Path}

theorem list_of_run_ok {es : List Entry} (h : (list path).run s = (.ok es, s')) :
    s.disk.entries path = .ok es ∧ s' = s := by
  rw [run_list] at h
  unfold Disk.entries
  cases hlist : s.disk.list path with
  | ok ns =>
    rw [hlist] at h
    obtain ⟨hc, rfl⟩ := Prod.mk.inj h
    exact ⟨by rw [← Except.ok.inj hc]; rfl, rfl⟩
  | error e =>
    rw [hlist] at h
    cases (Prod.mk.inj h).1

theorem read_of_run_ok {content : Bytes} (h : (read path).run s = (.ok content, s')) :
    s.disk.read path = .ok content ∧ s' = s := by
  rw [run_read] at h
  cases hread : s.disk.read path with
  | ok c =>
    rw [hread] at h
    obtain ⟨hc, rfl⟩ := Prod.mk.inj h
    exact ⟨by rw [Except.ok.inj hc], rfl⟩
  | error e =>
    rw [hread] at h
    cases (Prod.mk.inj h).1

/-- The stages of a pass that got through. -/
theorem pass_of_run_ok {layout : Layout} {mode : Mode} {q : Path} {u : Unit}
    (hdry : mode.dryRun = false) (h : (pass layout mode q).run s = (.ok u, s')) :
    ∃ s₁ s₂ entries,
      (makeDirectories ((layout.destinationRoot mode.direction).join q)).run s = (.ok (), s₁) ∧
      s₁.disk.entries ((layout.sourceRoot mode.direction).join q) = .ok entries ∧
      ((entries.map (Entry.sourceAction layout.rules
        ((layout.destinationRoot mode.direction).join q))).forM (execute mode q)).run s₁ =
          (.ok (), s₂) ∧
      (cleanUp layout.rules mode q ((layout.destinationRoot mode.direction).join q)
        (Plan.ofSource layout.rules ((layout.destinationRoot mode.direction).join q) entries)).run
          s₂ = (.ok (), s') := by
  unfold pass at h
  simp only [hdry, Bool.false_and, Bool.false_eq_true, if_false, get_seq] at h
  obtain ⟨_, s₁, hmake, hrest⟩ := run_bind_eq_ok.mp h
  obtain ⟨entries, _, hlist, hwork⟩ := run_bind_eq_ok.mp hrest
  obtain ⟨hentries, rfl⟩ := list_of_run_ok hlist
  obtain ⟨_, s₂, hloop, hclean⟩ := run_bind_eq_ok.mp hwork
  rw [Plan.ofSource_actions] at hloop
  exact ⟨_, s₂, entries, hmake, hentries, hloop, hclean⟩

end Done

/-! ## Both ends of a run -/

/-- The run ends in `Q` if it gets through and in `E` if it fails. -/
def Ends {α : Type} (x : Run α) (s : Session) (Q : α → Session → Prop)
    (E : Failure → Session → Prop) : Prop :=
  match x.run s with
  | (.ok a, s') => Q a s'
  | (.error e, s') => E e s'

section Rules

variable {α β : Type} {s : Session} {E E' : Failure → Session → Prop}

theorem Ends.of_run_ok {x : Run α} {Q : α → Session → Prop} {a : α} {s' : Session}
    (h : x.run s = (.ok a, s')) (hq : Q a s') : Ends x s Q E := by
  rw [Ends, h]
  exact hq

theorem Ends.of_run_error {x : Run α} {Q : α → Session → Prop} {e : Failure} {s' : Session}
    (h : x.run s = (.error e, s')) (he : E e s') : Ends x s Q E := by
  rw [Ends, h]
  exact he

theorem Ends.ok {x : Run α} {Q : α → Session → Prop} (h : Ends x s Q E) {a : α} {s' : Session}
    (hr : x.run s = (.ok a, s')) : Q a s' := by
  rwa [Ends, hr] at h

theorem Ends.error {x : Run α} {Q : α → Session → Prop} (h : Ends x s Q E) {e : Failure}
    {s' : Session} (hr : x.run s = (.error e, s')) : E e s' := by
  rwa [Ends, hr] at h

theorem Ends.mono {x : Run α} {Q Q' : α → Session → Prop} (h : Ends x s Q E)
    (hq : ∀ a s', Q a s' → Q' a s') (he : ∀ e s', E e s' → E' e s') : Ends x s Q' E' := by
  unfold Ends at h ⊢
  split at h
  · exact hq _ _ h
  · exact he _ _ h

/-- The ends are those that the run comes to. -/
theorem Ends.with_run {x : Run α} {Q : α → Session → Prop} (h : Ends x s Q E) :
    Ends x s (fun a s' => Q a s' ∧ x.run s = (.ok a, s'))
      (fun e s' => E e s' ∧ x.run s = (.error e, s')) := by
  rcases hrun : x.run s with ⟨e | a, s'⟩
  · exact .of_run_error hrun ⟨h.error hrun, rfl⟩
  · exact .of_run_ok hrun ⟨h.ok hrun, rfl⟩

theorem Ends.bind {x : Run α} {f : α → Run β} {Q : α → Session → Prop} {R : β → Session → Prop}
    (hx : Ends x s Q E) (hf : ∀ a s', Q a s' → Ends (f a) s' R E) : Ends (x >>= f) s R E := by
  unfold Ends at hx
  split at hx
  · next a s' h =>
    rw [Ends, run_bind_ok h]
    exact hf a s' hx
  · next e s' h =>
    rw [Ends, run_bind_error h]
    exact hx

theorem Ends.bind_ok {x : Run α} {f : α → Run β} {R : β → Session → Prop} {a : α} {s' : Session}
    (h : x.run s = (.ok a, s')) (hf : Ends (f a) s' R E) : Ends (x >>= f) s R E := by
  rwa [Ends, run_bind_ok h]

theorem Ends.bind_error {x : Run α} {f : α → Run β} {R : β → Session → Prop} {e : Failure}
    {s' : Session} (h : x.run s = (.error e, s')) (he : E e s') : Ends (x >>= f) s R E := by
  rwa [Ends, run_bind_error h]

/-- A loop keeps an invariant over the entries that are done. -/
theorem Ends.forM {f : α → Run Unit} {I : List α → Session → Prop} (as : List α) (h0 : I [] s)
    (step : ∀ done a rest s, as = done ++ a :: rest → I done s →
      Ends (f a) s (fun _ s' => I (done ++ [a]) s') E) :
    Ends (as.forM f) s (fun _ s' => I as s') E := by
  suffices h : ∀ done rest s, as = done ++ rest → I done s →
      Ends (rest.forM f) s (fun _ s' => I as s') E from h [] as s rfl h0
  -- The induction is on what is left to do, for whatever has been done.
  intro done rest
  induction rest generalizing done with
  | nil =>
    intro s hsplit hs
    rw [List.append_nil] at hsplit
    exact Ends.of_run_ok rfl (hsplit ▸ hs)
  | cons a rest ih =>
    intro s hsplit hs
    apply (step done a rest s hsplit hs).bind
    intro _ s' hs'
    exact ih (done ++ [a]) s' (by simpa using hsplit) hs'

end Rules

/-- A loop up to one entry, that entry, and the loop from there on. -/
theorem forM_split {α : Type} (f : α → Run Unit) (done : List α) (a : α) (rest : List α) :
    (done ++ a :: rest).forM f = done.forM f >>= fun _ => f a >>= fun _ => rest.forM f :=
  List.forM_append

/-- A loop over a filtered list is a loop over the whole list. -/
theorem forM_filterMap {α β : Type} (f : α → Option β) (g : β → Run Unit) (as : List α) :
    (as.filterMap f).forM g = as.forM fun a => (f a).elim (pure ()) g := by
  induction as with
  | nil => rfl
  | cons a r ih =>
    cases h : f a with
    | none => simp only [List.filterMap_cons_none h, List.forM, h, Option.elim, pure_bind, ih]
    | some b => simp only [List.filterMap_cons_some h, List.forM, h, Option.elim, ih]

theorem forM_map {α β : Type} (f : α → β) (g : β → Run Unit) (as : List α) :
    (as.map f).forM g = as.forM fun a => g (f a) := by
  induction as with
  | nil => rfl
  | cons a r ih => simp only [List.map_cons, List.forM, ih]

end GuestSync.Run
