/-
# GuestSync.Proofs.RunPairs -- two runs side by side

One run foretells another if it gets through wherever the other does, counts the
same and says the same of every entry. The two may work on different disks, so
the rules here are about pairs of runs: `Mirrored x y s t R` says that `y` gets
through from `t` whenever `x` does from `s`, with the two ends in `R`. A step of
the one run alone is allowed if it is silent. Each action of a dry run mirrors
that of a real one, provided that the two disks give the same contents to the
files that are converted; for deleting and skipping nothing is assumed.
-/
import GuestSync.Proofs.DryRun
import GuestSync.Proofs.EntryWork

namespace GuestSync

/-- The session `t` of a dry run foretells the session `s`: the counts are the same but
for the tags, and the lines are about the same entries in the same order. -/
structure Session.Foretells (t s : Session) : Prop where
  tally : t.tally = { s.tally with tagged := 0 }
  lines : ∃ ps : List Progress, s.outputLines = ps.map (Progress.line false) ∧
    t.outputLines = ps.map (Progress.line true)

/-- The run has neither counted nor said anything. -/
structure Session.Quiet (s s' : Session) : Prop where
  tally : s'.tally = s.tally
  lines : s'.outputLines = s.outputLines

namespace Session.Foretells

variable {s s' t : Session}

theorem start (d : Disk) : (Session.start d).Foretells (Session.start d) := ⟨rfl, [], rfl, rfl⟩

theorem of_quiet (h : t.Foretells s) (hq : s.Quiet s') : t.Foretells s' := by
  refine ⟨?_, ?_⟩
  · rw [hq.tally, h.tally]
  · rw [hq.lines]
    exact h.lines

/-- One more line on either side, about the same entry. -/
theorem report (h : t.Foretells s) (p : Progress) :
    Session.Foretells { t with journal := t.journal ++ [.report true p] }
      { s with journal := s.journal ++ [.report false p] } := by
  obtain ⟨ps, hs, ht⟩ := h.lines
  unfold outputLines at hs ht
  refine ⟨h.tally, ps ++ [p], ?_, ?_⟩
  · simp [outputLines, hs]
  · simp [outputLines, ht]

/-- The same count on either side, tags aside. -/
theorem count (h : t.Foretells s) {f g : Tally → Tally}
    (hfg : ∀ u : Tally, g { u with tagged := 0 } = { f u with tagged := 0 }) :
    Session.Foretells { t with tally := g t.tally } { s with tally := f s.tally } := by
  refine ⟨?_, h.lines⟩
  dsimp only
  rw [h.tally, hfg]

end Session.Foretells

namespace Run

/-! ## Steps that are silent -/

/-- The run neither counts nor says anything, however it ends. -/
def Silent {α : Type} (x : Run α) : Prop := ∀ s : Session, s.Quiet (x.run s).2

theorem Silent.write (path : Path) (content : Bytes) : Silent (write path content) := by
  intro s
  rw [run_write]
  cases s.disk.write path content <;> exact ⟨rfl, by simp [Session.outputLines]⟩

theorem Silent.delete (path : Path) : Silent (delete path) := by
  intro s
  rw [run_delete]
  cases s.disk.remove path <;> exact ⟨rfl, by simp [Session.outputLines]⟩

theorem Silent.makeDirectories (path : Path) : Silent (makeDirectories path) := by
  intro s
  rw [run_makeDirectories]
  exact ⟨rfl, by simp [Session.outputLines]⟩

theorem Silent.tag (tagger : Tagger) (call : TagCall) : Silent (tag tagger call) := by
  intro s
  rw [run_tag]
  cases tagger.answer s.disk s.tagCalls call <;> exact ⟨rfl, by simp [Session.outputLines]⟩

/-! ## Pairs of runs -/

/-- Whenever the run `x` gets through from `s`, the run `y` gets through from `t`, and
the two ends are in `R`. -/
def Mirrored {α β : Type} (x : Run α) (y : Run β) (s t : Session)
    (R : α → β → Session → Session → Prop) : Prop :=
  ∀ a s', x.run s = (.ok a, s') → ∃ b t', y.run t = (.ok b, t') ∧ R a b s' t'

section Rules

variable {α β γ δ : Type} {x : Run α} {y : Run β} {s t : Session}
variable {R R' : α → β → Session → Session → Prop}

theorem Mirrored.of_run_ok {a : α} {b : β} {s' t' : Session} (hx : x.run s = (.ok a, s'))
    (hy : y.run t = (.ok b, t')) (h : R a b s' t') : Mirrored x y s t R := by
  intro a₁ s₁ hrun
  rw [hx] at hrun
  obtain ⟨hok, rfl⟩ := Prod.mk.inj hrun
  obtain rfl := Except.ok.inj hok
  exact ⟨b, t', hy, h⟩

/-- A run that fails need not be mirrored. -/
theorem Mirrored.of_run_error {e : Failure} {s' : Session} (hx : x.run s = (.error e, s')) :
    Mirrored x y s t R := by
  intro a₁ s₁ hrun
  rw [hx] at hrun
  cases (Prod.mk.inj hrun).1

theorem Mirrored.mono (h : Mirrored x y s t R) (hR : ∀ a b s' t', R a b s' t' → R' a b s' t') :
    Mirrored x y s t R' := by
  intro a s' hrun
  obtain ⟨b, t', hy, hab⟩ := h a s' hrun
  exact ⟨b, t', hy, hR a b s' t' hab⟩

/-- The same for runs that come to the same from these sessions. -/
theorem Mirrored.congr {x' : Run α} {y' : Run β} (hx : x.run s = x'.run s)
    (hy : y.run t = y'.run t) (h : Mirrored x' y' s t R) : Mirrored x y s t R := by
  intro a s' hrun
  rw [hx] at hrun
  rw [hy]
  exact h a s' hrun

/-- What is known of the first run by itself. -/
theorem Mirrored.and_ends {Q : α → Session → Prop} {E : Failure → Session → Prop}
    (h : Mirrored x y s t R) (hx : Ends x s Q E) :
    Mirrored x y s t fun a b s' t' => R a b s' t' ∧ Q a s' := by
  intro a s' hrun
  obtain ⟨b, t', hy, hab⟩ := h a s' hrun
  exact ⟨b, t', hy, hab, hx.ok hrun⟩

/-- The second run only looks. -/
theorem Mirrored.and_idle (h : Mirrored x y s t R) (hy : Idle y) :
    Mirrored x y s t fun a b s' t' => R a b s' t' ∧ t'.disk = t.disk := by
  intro a s' hrun
  obtain ⟨b, t', hrun', hab⟩ := h a s' hrun
  have hdisk := (hy t).1
  rw [hrun'] at hdisk
  exact ⟨b, t', hrun', hab, hdisk⟩

theorem Mirrored.bind {f : α → Run γ} {g : β → Run δ} {P : γ → δ → Session → Session → Prop}
    (h : Mirrored x y s t R) (hfg : ∀ a b s' t', R a b s' t' → Mirrored (f a) (g b) s' t' P) :
    Mirrored (x >>= f) (y >>= g) s t P := by
  intro c s' hrun
  obtain ⟨a, s₁, hx, hf⟩ := run_bind_eq_ok.mp hrun
  obtain ⟨b, t₁, hy, hab⟩ := h a s₁ hx
  obtain ⟨d, t', hg, hcd⟩ := hfg a b s₁ t₁ hab c s' hf
  exact ⟨d, t', run_bind_eq_ok.mpr ⟨b, t₁, hy, hg⟩, hcd⟩

/-- A step that the first run makes alone. -/
theorem Mirrored.ahead {f : α → Run γ} {y : Run δ} {P : γ → δ → Session → Session → Prop}
    (h : ∀ a s', x.run s = (.ok a, s') → Mirrored (f a) y s' t P) :
    Mirrored (x >>= f) y s t P := by
  intro c s' hrun
  obtain ⟨a, s₁, hx, hf⟩ := run_bind_eq_ok.mp hrun
  exact h a s₁ hx c s' hf

/-- A silent step that the first run makes alone. -/
theorem Mirrored.silent {f : α → Run γ} {y : Run δ} {P : γ → δ → Session → Session → Prop}
    (hx : Silent x) (ht : t.Foretells s)
    (h : ∀ a s', t.Foretells s' → Mirrored (f a) y s' t P) : Mirrored (x >>= f) y s t P := by
  apply Mirrored.ahead
  intro a s' hrun
  have hquiet := hx s
  rw [hrun] at hquiet
  exact h a s' (ht.of_quiet hquiet)

/-- Two loops over the same entries keep an invariant over those that are done. -/
theorem Mirrored.forM {f g : α → Run Unit} {I : List α → Session → Session → Prop} (as : List α)
    (h0 : I [] s t)
    (step : ∀ done a rest s t, as = done ++ a :: rest → I done s t →
      Mirrored (f a) (g a) s t fun _ _ s' t' => I (done ++ [a]) s' t') :
    Mirrored (as.forM f) (as.forM g) s t fun _ _ s' t' => I as s' t' := by
  suffices h : ∀ done rest s t, as = done ++ rest → I done s t →
      Mirrored (rest.forM f) (rest.forM g) s t fun _ _ s' t' => I as s' t' from h [] as s t rfl h0
  intro done rest
  induction rest generalizing done with
  | nil =>
    intro s t hsplit hI
    rw [List.append_nil] at hsplit
    exact Mirrored.of_run_ok rfl rfl (hsplit ▸ hI)
  | cons a rest ih =>
    intro s t hsplit hI
    apply (step done a rest s t hsplit hI).bind
    intro _ _ s' t' hI'
    exact ih (done ++ [a]) s' t' (by simpa using hsplit) hI'

end Rules

/-! ## An action and its dry run -/

section Actions

variable {mode dry : Mode} {q : Path} {s t : Session}

theorem mirrored_report (ht : t.Foretells s) (p : Progress) :
    Mirrored (note (.report false p)) (note (.report true p)) s t
      fun _ _ s' t' => t'.Foretells s' :=
  Mirrored.of_run_ok (run_note s _) (run_note t _) (ht.report p)

theorem mirrored_count (ht : t.Foretells s) {f g : Tally → Tally}
    (hfg : ∀ u : Tally, g { u with tagged := 0 } = { f u with tagged := 0 }) :
    Mirrored (count f) (count g) s t fun _ _ s' t' => t'.Foretells s' :=
  Mirrored.of_run_ok (run_count s f) (run_count t g) (ht.count hfg)

theorem mirrored_read {path : Path} (hread : t.disk.read path = s.disk.read path) :
    Mirrored (read path) (read path) s t fun a b s' t' => a = b ∧ s = s' ∧ t = t' := by
  have hs := run_read s path
  have ht := run_read t path
  rw [hread] at ht
  cases hcontent : s.disk.read path with
  | error e =>
    rw [hcontent] at hs
    exact Mirrored.of_run_error hs
  | ok content =>
    rw [hcontent] at hs ht
    exact Mirrored.of_run_ok hs ht ⟨rfl, rfl, rfl⟩

/-- Whether a file on the disk `e` is one on `d` as well, as far as its content matters
for a comparison that does not fail. -/
def SeenAlike (d e : Disk) (path : Path) : Prop :=
  d.read path = e.read path ∨ ∃ err, err ≠ .notFound ∧ e.read path = .error err

theorem mirrored_holds {path : Path} {content : Bytes} (h : SeenAlike t.disk s.disk path) :
    Mirrored (holds path content) (holds path content) s t
      fun a b s' t' => a = b ∧ s = s' ∧ t = t' := by
  have hs := run_holds s path content
  have ht := run_holds t path content
  rcases h with hread | ⟨err, hne, hread⟩
  · rw [hread] at ht
    cases hcontent : s.disk.read path with
    | ok existing =>
      rw [hcontent] at hs ht
      exact Mirrored.of_run_ok hs ht ⟨rfl, rfl, rfl⟩
    | error err =>
      rw [hcontent] at hs ht
      cases err with
      | notFound => exact Mirrored.of_run_ok hs ht ⟨rfl, rfl, rfl⟩
      | _ => exact Mirrored.of_run_error hs
  · rw [hread] at hs
    cases err with
    | notFound => exact absurd rfl hne
    | _ => exact Mirrored.of_run_error hs

variable (mode) in
/-- The end of a conversion. Only the real run tags, and it says nothing while it does. -/
private theorem mirrored_finish (ht : t.Foretells s) (call : TagCall) {f g : Tally → Tally}
    (hfg : ∀ u : Tally, g { u with tagged := 0 } = { f u with tagged := 0 }) :
    Mirrored (if mode.direction.tagsDestination = true then do
        tag mode.tagger call
        count f
      else count f) (count g) s t fun _ _ s' t' => t'.Foretells s' := by
  split
  · apply Mirrored.silent (Silent.tag mode.tagger call) ht
    intro _ s₁ ht₁
    exact mirrored_count ht₁ hfg
  · exact mirrored_count ht hfg

variable (hmode : mode.dryRun = false) (hdry : dry.dryRun = true)
variable (hdirection : dry.direction = mode.direction)

include hmode hdry hdirection

/-- **Converting and converting dry.** -/
theorem mirrored_convertFile {source destination : Path} {rule : Rule} (ht : t.Foretells s)
    (hsource : t.disk.read source = s.disk.read source)
    (hdestination : SeenAlike t.disk s.disk destination) :
    Mirrored (convertFile mode q source destination rule)
      (convertFile dry q source destination rule) s t fun _ _ s' t' => t'.Foretells s' := by
  unfold convertFile
  apply (mirrored_read hsource).bind
  rintro input _ _ _ ⟨rfl, rfl, rfl⟩
  rw [hdirection]
  cases convert rule.kind mode.direction input with
  | error fault => exact Mirrored.of_run_error (run_throw _ _)
  | ok output =>
    apply (mirrored_holds hdestination).bind
    rintro same _ _ _ ⟨rfl, rfl, rfl⟩
    simp only [hmode, hdry, Bool.false_or, Bool.true_or, Bool.not_false, Bool.not_true,
      Bool.true_and, Bool.false_and, if_true, Bool.false_eq_true, if_false]
    apply (mirrored_report ht _).bind
    intro _ _ s₁ t₁ ht₁
    cases same with
    | true => exact mirrored_finish mode ht₁ _ fun _ => rfl
    | false =>
      apply Mirrored.silent (Silent.write destination output) ht₁
      intro _ s₂ ht₂
      exact mirrored_finish mode ht₂ _ fun _ => rfl

/-- **An action and its dry run.** Only a conversion reads anything. -/
theorem mirrored_execute {a : Action} (ht : t.Foretells s)
    (hreads : ∀ source destination rule, a = .convert source destination rule →
      t.disk.read source = s.disk.read source ∧ SeenAlike t.disk s.disk destination) :
    Mirrored (execute mode q a) (execute dry q a) s t fun _ _ s' t' => t'.Foretells s' := by
  cases a with
  | convert source destination rule =>
    obtain ⟨hsource, hdestination⟩ := hreads source destination rule rfl
    exact mirrored_convertFile hmode hdry hdirection ht hsource hdestination
  | delete path =>
    unfold execute
    simp only [hmode, hdry, Bool.false_eq_true, if_false, if_true]
    apply (mirrored_report ht _).bind
    intro _ _ s₁ t₁ ht₁
    apply Mirrored.silent (Silent.delete path) ht₁
    intro _ s₂ ht₂
    exact mirrored_count ht₂ fun _ => rfl
  | skip path reason =>
    unfold execute
    rw [hmode, hdry]
    apply (mirrored_report ht _).bind
    intro _ _ s₁ t₁ ht₁
    exact mirrored_count ht₁ fun _ => rfl

end Actions

end Run

end GuestSync
