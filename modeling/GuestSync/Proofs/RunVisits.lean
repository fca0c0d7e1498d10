/-
# GuestSync.Proofs.RunVisits -- what a run comes to

A loop stops at the first element that fails, so a run does not come to every
subdirectory and a pass not to every entry, and what it does with one depends on the
session that it finds there. `visits` lists the elements that a loop comes to with those
sessions. What a loop adds to a journal is what the visits add, one after another, and an
event of the journal belongs to one visit. A pass has two halves: it lists the source and
deals with the entries, and then it clears the destination.
-/
import GuestSync.Proofs.ActionOutcomes
import GuestSync.Proofs.DestinationContent
import GuestSync.Proofs.PlanDecisions

namespace GuestSync

/-! ## The visits of a loop -/

/-- What is found in the front part of a list, or behind it. -/
theorem prefix_or_split {α : Type} {l told rest : List α} {a : α} (h : l <+: told ++ a :: rest) :
    l <+: told ∨ ∃ rest', l = told ++ a :: rest' := by
  obtain hl | hl := List.prefix_or_prefix_of_prefix h (List.prefix_append told (a :: rest))
  · exact .inl hl
  · obtain ⟨t, rfl⟩ := hl
    cases t with
    | nil => exact .inl (by rw [List.append_nil])
    | cons b t =>
      rw [List.prefix_append_right_inj, List.cons_prefix_cons] at h
      exact .inr ⟨t, by rw [h.1]⟩

namespace Run

/-- The elements that a loop comes to, each with the session that it finds. -/
def visits {α : Type} (f : α → Run Unit) : List α → Session → List (α × Session)
  | [], _ => []
  | a :: as, s =>
    (a, s) ::
      match (f a).run s with
      | (.ok _, t) => visits f as t
      | (.error _, _) => []

section Visits

variable {α β : Type} {f : α → Run Unit} {as : List α} {s t : Session}

theorem visits_cons_ok {a : α} (h : (f a).run s = (.ok (), t)) :
    visits f (a :: as) s = (a, s) :: visits f as t := by
  rw [visits, h]

theorem visits_cons_error {a : α} {e : Failure} (h : (f a).run s = (.error e, t)) :
    visits f (a :: as) s = [(a, s)] := by
  rw [visits, h]

/-- A loop that gets through has come to every element. -/
theorem map_fst_visits (h : (as.forM f).run s = (.ok (), t)) :
    (visits f as s).map Prod.fst = as := by
  induction as generalizing s with
  | nil => rfl
  | cons a as ih =>
    obtain ⟨_, s₁, hfirst, hrest⟩ := run_bind_eq_ok.mp h
    rw [visits_cons_ok hfirst, List.map_cons, ih hrest]

/-- Up to a visit the loop has got through, and it finds the session of the visit. -/
theorem visits_split {before after : List (α × Session)} {v : α × Session}
    (h : visits f as s = before ++ v :: after) :
    ∃ rest, as = before.map Prod.fst ++ v.1 :: rest ∧
      ((before.map Prod.fst).forM f).run s = (.ok (), v.2) ∧
      visits f (before.map Prod.fst) s = before := by
  induction as generalizing s before with
  | nil => simp [visits] at h
  | cons a as ih =>
    cases before with
    | nil =>
      obtain ⟨rfl, -⟩ := List.cons.inj h
      exact ⟨as, rfl, rfl, rfl⟩
    | cons b before =>
      rcases hrun : (f a).run s with ⟨e | u, s₁⟩
      · rw [visits_cons_error hrun] at h
        simp at h
      · rw [visits_cons_ok hrun] at h
        obtain ⟨rfl, htail⟩ := List.cons.inj h
        obtain ⟨rest, rfl, hbefore, hvisits⟩ := ih htail
        refine ⟨rest, rfl, run_bind_eq_ok.mpr ⟨(), s₁, hrun, hbefore⟩, ?_⟩
        rw [List.map_cons, visits_cons_ok hrun, hvisits]

/-- A visit that fails ends the loop. -/
theorem run_of_visit_error {v : α × Session} {e : Failure} (hv : v ∈ visits f as s)
    (h : (f v.1).run v.2 = (.error e, t)) : (as.forM f).run s = (.error e, t) := by
  obtain ⟨before, after, hsplit⟩ := List.append_of_mem hv
  obtain ⟨rest, rfl, hbefore, -⟩ := visits_split hsplit
  rw [forM_split, run_bind_ok hbefore, run_bind_error h]

/-- A second step that adds nothing to what is gathered. -/
theorem gather_bind {γ δ ε : Type} (L : Session → γ) {x : Run δ} {g : δ → Run ε}
    (h : ∀ b s, L ((g b).run s).2 = L s) (s : Session) :
    L ((x >>= g).run s).2 = L (x.run s).2 := by
  rw [run_bind]
  rcases x.run s with ⟨e | b, t⟩
  · rfl
  · exact h b t

/-- The visits of a loop that gets through do not fail. -/
theorem run_of_visit_ok {v : α × Session} (hv : v ∈ visits f as s)
    (h : (as.forM f).run s = (.ok (), t)) : ∃ t', (f v.1).run v.2 = (.ok (), t') := by
  rcases hrun : (f v.1).run v.2 with ⟨e | u, t'⟩
  · rw [run_of_visit_error hv hrun] at h
    cases (Prod.mk.inj h).1
  · exact ⟨t', rfl⟩

/-- What a loop gathers is what is gathered at its visits, however it ends. -/
theorem gather_forM (L : Session → List β) {g : α → Session → List β}
    (h : ∀ a s, L ((f a).run s).2 = L s ++ g a s) (as : List α) (s : Session) :
    L ((as.forM f).run s).2 = L s ++ (visits f as s).flatMap fun v => g v.1 v.2 := by
  induction as generalizing s with
  | nil => exact (List.append_nil _).symm
  | cons a as ih =>
    show L ((f a >>= fun _ => as.forM f).run s).2 = _
    rw [run_bind]
    have ha := h a s
    rcases hrun : (f a).run s with ⟨e | u, s₁⟩ <;> rw [hrun] at ha
    · rw [visits_cons_error hrun, List.flatMap_singleton]
      exact ha
    · rw [visits_cons_ok hrun, List.flatMap_cons, ← List.append_assoc, ← ha]
      exact ih s₁

/-- What has been gathered when a loop comes to a visit. -/
theorem gather_visit (L : Session → List β) {g : α → Session → List β}
    (h : ∀ a s, L ((f a).run s).2 = L s ++ g a s) {before after : List (α × Session)}
    {v : α × Session} (hsplit : visits f as s = before ++ v :: after) :
    L v.2 = L s ++ before.flatMap fun w => g w.1 w.2 := by
  obtain ⟨-, -, hbefore, hvisits⟩ := visits_split hsplit
  have hgather := gather_forM L h (before.map Prod.fst) s
  rwa [hbefore, hvisits] at hgather

end Visits

/-! ## Where an event comes from -/

section Events

variable {α β : Type} {tagger : Tagger} {s t : Session} {told rest : List Event} {ev : Event}

theorem Journaled.extends {x : Run α} (h : Journaled tagger x) {r : Except Failure α}
    (hrun : x.run s = (r, t)) : s.journal <+: t.journal := by
  obtain ⟨es, hes⟩ := h.led hrun
  rw [hes.journal]
  exact List.prefix_append _ _

/-- An event that was not told before a sequence is one of its first part or one of its
second part. -/
theorem told_bind {x : Run α} {f : α → Run β} {result : Except Failure β}
    (hf : ∀ a, Journaled tagger (f a)) (hrun : (x >>= f).run s = (result, t))
    (h : t.journal = told ++ ev :: rest) :
    (∃ r s₁ rest', x.run s = (r, s₁) ∧ s₁.journal = told ++ ev :: rest') ∨
      ∃ a s₁, x.run s = (.ok a, s₁) ∧ s₁.journal <+: told ∧ (f a).run s₁ = (result, t) := by
  rw [run_bind] at hrun
  rcases hx : x.run s with ⟨e | a, s₁⟩ <;> rw [hx] at hrun
  · obtain ⟨-, rfl⟩ := Prod.mk.inj hrun
    exact .inl ⟨_, s₁, rest, rfl, h⟩
  · have hgrown := (hf a).extends hrun
    rw [h] at hgrown
    obtain htold | ⟨rest', hin⟩ := prefix_or_split hgrown
    · exact .inr ⟨a, s₁, rfl, htold, hrun⟩
    · exact .inl ⟨_, s₁, rest', rfl, hin⟩

/-- **An event of a loop** is one of a visit. -/
theorem told_forM {f : α → Run Unit} (hf : ∀ a, Journaled tagger (f a)) {as : List α}
    {result : Except Failure Unit} (hrun : (as.forM f).run s = (result, t))
    (h : t.journal = told ++ ev :: rest) (hbefore : s.journal <+: told) :
    ∃ before v after r s₁ rest', visits f as s = before ++ v :: after ∧
      (f v.1).run v.2 = (r, s₁) ∧ v.2.journal <+: told ∧ s₁.journal = told ++ ev :: rest' := by
  induction as generalizing s with
  | nil =>
    obtain ⟨-, rfl⟩ := Prod.mk.inj hrun
    rw [h] at hbefore
    simpa using hbefore.length_le
  | cons a as ih =>
    rcases told_bind (fun _ => Journaled.forM as hf) hrun h with
      ⟨r, s₁, rest', hfirst, hin⟩ | ⟨u, s₁, hfirst, htold, hrest⟩
    · exact ⟨[], (a, s), _, r, s₁, rest', rfl, hfirst, hbefore, hin⟩
    · obtain ⟨before, v, after, r, s₂, rest', hsplit, hvisit⟩ := ih hrest htold
      exact ⟨(a, s) :: before, v, after, r, s₂, rest',
        by rw [visits_cons_ok hfirst, hsplit, List.cons_append], hvisit⟩

/-- What a run tells leaves out stays as it was. -/
theorem filterMap_of_led {g : Event → Option β} {es : List Event} (h : s.Led tagger es t)
    (hes : ∀ e ∈ es, g e = none) : t.journal.filterMap g = s.journal.filterMap g := by
  rw [h.journal, List.filterMap_append, List.filterMap_eq_nil_iff.mpr hes, List.append_nil]

/-- An event that a run tells, and what it has told before. -/
theorem Tells.split {P : Event → Prop} {x : Run α} {r : Except Failure α}
    (hx : Tells tagger (fun _ => True) P x) (hrun : x.run s = (r, t))
    (h : t.journal = told ++ ev :: rest) (hbefore : s.journal <+: told) :
    ∃ later, told = s.journal ++ later ∧ ∀ e ∈ later ++ [ev], P e := by
  obtain ⟨es, hled, hes⟩ := hx s trivial
  rw [hrun] at hled
  obtain ⟨later, rfl⟩ := hbefore
  obtain rfl : es = later ++ ev :: rest := by
    have hjournal := hled.journal.symm.trans h
    rwa [List.append_assoc, List.append_cancel_left_eq] at hjournal
  exact ⟨later, rfl, fun e he => hes e (by simp at he ⊢; tauto)⟩

end Events

end Run

/-! ## The two halves of a pass -/

namespace Layout

variable (layout : Layout) (mode : Mode) (q : Path)

/-- The beginning of a pass: it makes the destination directory and lists the source. -/
def opening : Run (List Entry) := do
  unless mode.dryRun do
    Run.makeDirectories ((layout.destinationRoot mode.direction).join q)
  Run.list ((layout.sourceRoot mode.direction).join q)

/-- The first half of a pass: it deals with the entries of the source. -/
def sourcePhase : Run (List Entry) := do
  let entries ← layout.opening mode q
  layout.deal mode q entries
  return entries

/-- The second half of a pass: it clears the destination, unless that is missing in a dry
run. -/
def closing (entries : List Entry) : Run Unit := do
  if mode.dryRun && !(← get).disk.isDirectory ((layout.destinationRoot mode.direction).join q) then
    return ()
  else
    Run.cleanUp layout.rules mode q ((layout.destinationRoot mode.direction).join q)
      (Plan.ofSource layout.rules ((layout.destinationRoot mode.direction).join q) entries)

/-- The subdirectories that a run comes to, each with the session that it finds. -/
def visited (s : Session) : List (Path × Session) :=
  Run.visits (Run.pass layout mode) layout.subdirs s

/-- What is done with one entry of the source. -/
def dealWith (e : Entry) : Run Unit :=
  Run.execute mode q
    (e.sourceAction layout.rules ((layout.destinationRoot mode.direction).join q))

theorem deal_eq (entries : List Entry) :
    layout.deal mode q entries = entries.forM (layout.dealWith mode q) :=
  Run.forM_map _ _ _

/-- The stages of a pass. -/
theorem pass_eq : Run.pass layout mode q = layout.opening mode q >>= fun entries =>
    layout.deal mode q entries >>= fun _ => layout.closing mode q entries := by
  unfold Run.pass closing opening deal
  cases mode.dryRun <;>
    simp only [if_true, Bool.false_eq_true, if_false, bind_assoc, Plan.ofSource_actions]

/-- The halves of a pass. -/
theorem pass_halves : Run.pass layout mode q =
    layout.sourcePhase mode q >>= layout.closing mode q := by
  rw [pass_eq, sourcePhase]
  simp only [bind_assoc, pure_bind]

end Layout

/-! ## What the two halves tell -/

/-- An event of the second half of a pass over some source entries: a line for an entry,
or the deletion of a file in the destination directory whose name is recognized and is
borne by no source file. -/
inductive Event.Clears (rules : RuleTable) (T : Path) (sources : List Entry) : Event → Prop
  | report (dryRun : Bool) (progress : Progress) : Clears rules T sources (.report dryRun progress)
  | delete {n : Name} {name : String} (text : Utf8.toString? n = some name)
      (recognized : rules.recognizes name = true)
      (orphaned : ∀ e ∈ sources, e.kind = .file → e.name ≠ some name) :
      Clears rules T sources (.delete (T.child n))

namespace Layout

section Tells

variable {layout : Layout} {mode : Mode} {q : Path} {P : Event → Prop} {entries : List Entry}

theorem tells_opening
    (hmake : P (.makeDirectories ((layout.destinationRoot mode.direction).join q))) :
    Run.Tells mode.tagger (fun _ => True) P (layout.opening mode q) := by
  have hlist : Run.Tells mode.tagger (fun _ => True) P
      (Run.list ((layout.sourceRoot mode.direction).join q)) := by
    apply Run.Tells.of_still
    intro s
    rw [Run.run_list]
    cases s.disk.list ((layout.sourceRoot mode.direction).join q) <;> exact ⟨rfl, rfl⟩
  unfold opening
  dsimp only
  split
  · exact hlist
  · exact (Run.Tells.makeDirectories _ hmake).bind (fun _ _ _ _ => trivial) fun _ => hlist

theorem tells_deal (hreport : ∀ dryRun p, P (.report dryRun p))
    (hwrite : ∀ path content, P (.write path content))
    (htag : ∀ call accepted, P (.tag call accepted)) :
    Run.Tells mode.tagger (fun _ => True) P (layout.deal mode q entries) := by
  refine Run.tells_loop (fun _ _ _ _ => trivial) hreport ?_
  intro a ha
  obtain ⟨e, -, rfl⟩ := List.mem_map.mp ha
  unfold Entry.sourceAction
  cases e.verdict layout.rules with
  | ok v => exact ⟨fun _ => hwrite _ _, fun _ => htag _ _⟩
  | error reason => exact trivial

/-- What is deleted in the second half of a pass is an entry that has lost its source. -/
theorem tells_closing :
    Run.Tells mode.tagger (fun _ => True)
      (Event.Clears layout.rules ((layout.destinationRoot mode.direction).join q) entries)
      (layout.closing mode q entries) := by
  unfold closing
  apply Run.Tells.get.bind (fun _ _ _ _ => trivial)
  intro s
  split
  · exact .pure ()
  · apply Run.tells_cleanUp (fun _ _ _ _ => trivial) .report
    intro d es _ hes a ha
    rw [Plan.deletions_ofSource] at ha
    obtain ⟨e, he, rfl⟩ := List.mem_map.mp ha
    obtain ⟨hin, horphaned⟩ := List.mem_filter.mp he
    obtain ⟨-, name, hname, hrecognized, hsources⟩ := of_decide_eq_true horphaned
    -- The entry is one of the destination directory.
    obtain ⟨ns, rfl⟩ : ∃ ns : List Name,
        ns.map (d.entry ((layout.destinationRoot mode.direction).join q)) = es := by
      unfold Disk.entries at hes
      cases hlist : d.list ((layout.destinationRoot mode.direction).join q) with
      | ok ns =>
        rw [hlist] at hes
        exact ⟨ns, Except.ok.inj hes⟩
      | error e =>
        rw [hlist] at hes
        cases hes
    obtain ⟨n, -, rfl⟩ := List.mem_map.mp hin
    exact .delete hname hrecognized hsources

end Tells

/-! ## The journal only grows -/

variable (layout : Layout) (mode : Mode) (q : Path)

theorem journaled_opening : Run.Journaled mode.tagger (layout.opening mode q) :=
  (tells_opening trivial).journaled

theorem journaled_closing (entries : List Entry) :
    Run.Journaled mode.tagger (layout.closing mode q entries) :=
  (tells_closing.mono fun _ _ => trivial).journaled

end Layout

end GuestSync
