/-
# GuestSync.Proofs.SyncEffect -- what a whole run does

A run is its passes one after the other. `Passes` is the trace of those that got
through, and `ends_sync` says that every run either gets through all its passes
or stops in one that was aborted. What a trace leaves behind is said in one place
for all passes together: the ways to all destination directories are there, every
entry of them that is not on such a way is settled, and nothing else is changed.
The passes may be nested in each other; they do not undo each other's work,
because settling twice is settling once and no pass takes a directory away.
-/
import GuestSync.Proofs.PassEffect

namespace GuestSync

open Disk

/-- The passes over some subdirectories that all got through, with the disk and
the counts before and after. -/
inductive Mode.Passes (mode : Mode) (rules : RuleTable) (A B : Location) :
    Disk → Tally → List Path → Disk → Tally → Prop
  | nil {d : Disk} {t : Tally} : Passes mode rules A B d t [] d t
  | cons {d e f : Disk} {t u : Tally} {q : Path} {qs : List Path} (ms : List Name)
      (fits : d.Fits mode rules A B q)
      (passed : mode.Passed rules (A ++ q.names) (B ++ q.names) d e)
      (rest : Passes mode rules A B e (mode.countPass rules (A ++ q.names) (B ++ q.names) d
        (d.children (A ++ q.names)) ms t) qs f u) : Passes mode rules A B d t (q :: qs) f u

/-- What the passes over some subdirectories do to the view, taken together. -/
structure Mode.Synced (mode : Mode) (rules : RuleTable) (A B : Location) (qs : List Path)
    (v v' : Location → Option Node) : Prop where
  ways : ∀ q ∈ qs, ∀ m, m <+: B ++ q.names → v' m = some .directory
  entries : ∀ q ∈ qs, ∀ n, (∀ r ∈ qs, ¬ B ++ q.names ++ [n] <+: B ++ r.names) →
    v' (B ++ q.names ++ [n]) =
      mode.settled rules n (v (A ++ q.names ++ [n])) (v (B ++ q.names ++ [n]))
  others : ∀ m, (∀ q ∈ qs, ¬ m <+: B ++ q.names) → (∀ q ∈ qs, ∀ n, m ≠ B ++ q.names ++ [n]) →
    v' m = v m

namespace Mode

variable {mode : Mode} {rules : RuleTable} {S T : Path} {A B : Location}
variable {d e f : Disk} {t u : Tally} {q : Path} {qs : List Path}

/-! ## Traces -/

theorem Passes.kept (h : mode.Passes rules A B d t qs f u) (hd : d.Plain) : d.Kept f := by
  induction h with
  | nil => exact ⟨rfl, hd, fun _ hm => hm⟩
  | cons ms fits passed rest ih => exact passed.toKept.trans (ih passed.plain)

/-- A trace over two lists is a trace over one and then over the other. -/
theorem Passes.split {ps : List Path} (h : mode.Passes rules A B d t (ps ++ qs) f u) :
    ∃ e s, mode.Passes rules A B d t ps e s ∧ mode.Passes rules A B e s qs f u := by
  induction ps generalizing d t with
  | nil => exact ⟨d, t, .nil, h⟩
  | cons p ps ih =>
    cases h with
    | cons ms fits passed rest =>
      obtain ⟨e, s, hps, hqs⟩ := ih rest
      exact ⟨e, s, .cons ms fits passed hps, hqs⟩

/-- No pass touches the source side. -/
theorem Passed.source (h : mode.Passed rules (A ++ q.names) (B ++ q.names) d e)
    (hd : d.Sides S T A B) (x : List Name) : e.node? (A ++ x) = d.node? (A ++ x) := by
  apply h.others _ (hd.not_prefix x q.names)
  intro n heq
  rw [List.append_assoc] at heq
  exact hd.ne x (q.names ++ [n]) heq

theorem Passes.source (h : mode.Passes rules A B d t qs f u) (hd : d.Sides S T A B)
    (x : List Name) : f.node? (A ++ x) = d.node? (A ++ x) := by
  induction h with
  | nil => rfl
  | cons ms fits passed rest ih => rw [ih (hd.kept passed.toKept), passed.source hd]

theorem Synced.nil (v : Location → Option Node) : mode.Synced rules A B [] v v :=
  ⟨by simp, by simp, fun _ _ _ => rfl⟩

/-- One pass before others. -/
theorem Synced.cons (h : mode.Synced rules A B qs e.node? f.node?) (hd : d.Sides S T A B)
    (hp : mode.Passed rules (A ++ q.names) (B ++ q.names) d e) (hk : e.Kept f) :
    mode.Synced rules A B (q :: qs) d.node? f.node? := by
  refine ⟨?_, ?_, ?_⟩
  · intro r hr m hm
    rcases List.mem_cons.mp hr with rfl | hr
    · exact hk.directories m (hp.way m hm)
    · exact h.ways r hr m hm
  · intro r hr n hway
    have hsource : e.node? (A ++ r.names ++ [n]) = d.node? (A ++ r.names ++ [n]) := by
      rw [List.append_assoc, hp.source hd]
    have hnotq : ¬ B ++ r.names ++ [n] <+: B ++ q.names := hway q (by simp)
    by_cases hlater : ∃ r' ∈ qs, r'.names = r.names
    · -- The entry is dealt with again by a later pass, which settles it as this one did.
      obtain ⟨r', hr', hnames⟩ := hlater
      have hlast := h.entries r' hr' n fun p hp' => hnames ▸ hway p (by simp [hp'])
      rw [hnames, hsource] at hlast
      rw [hlast]
      by_cases hsame : q.names = r.names
      · rw [← hsame, hp.entries, settled_idem]
      · rw [hp.others _ hnotq]
        intro k heq
        exact hsame (entry_inj heq).1.symm
    · have hlast : f.node? (B ++ r.names ++ [n]) = e.node? (B ++ r.names ++ [n]) := by
        apply h.others
        · intro p hp'
          exact hway p (by simp [hp'])
        · intro p hp' k heq
          exact hlater ⟨p, hp', (entry_inj heq).1.symm⟩
      rw [hlast]
      rcases List.mem_cons.mp hr with rfl | hr
      · exact hp.entries n
      · exact absurd ⟨r, hr, rfl⟩ hlater
  · intro m hway hm
    rw [h.others m (fun p hp' => hway p (by simp [hp'])) fun p hp' => hm p (by simp [hp'])]
    exact hp.others m (hway q (by simp)) (hm q (by simp))

theorem Passes.synced (h : mode.Passes rules A B d t qs f u) (hd : d.Sides S T A B) :
    mode.Synced rules A B qs d.node? f.node? := by
  induction h with
  | nil => exact Synced.nil _
  | cons ms fits passed rest ih =>
    have hd' := hd.kept passed.toKept
    exact (ih hd').cons hd passed (rest.kept hd'.plain)

/-- The passes before the one that was aborted, and what the aborted one did. -/
def Stopped (mode : Mode) (rules : RuleTable) (A B : Location) (d : Disk) (t : Tally)
    (qs : List Path) (f : Disk) : Prop :=
  ∃ before q rest e u, qs = before ++ q :: rest ∧ mode.Passes rules A B d t before e u ∧
    (¬ e.Fits mode rules A B q ∨ ¬ mode.tagger.Willing) ∧
    mode.Aborted rules (A ++ q.names) (B ++ q.names) e f

theorem Stopped.cons (ms : List Name) (fits : d.Fits mode rules A B q)
    (passed : mode.Passed rules (A ++ q.names) (B ++ q.names) d e)
    (h : mode.Stopped rules A B e (mode.countPass rules (A ++ q.names) (B ++ q.names) d
      (d.children (A ++ q.names)) ms t) qs f) : mode.Stopped rules A B d t (q :: qs) f := by
  obtain ⟨before, p, rest, g, u, rfl, hbefore, hwhy, habort⟩ := h
  exact ⟨q :: before, p, rest, g, u, rfl, .cons ms fits passed hbefore, hwhy, habort⟩

end Mode

/-! ## Runs -/

/-- Passes over a list of subdirectories get through all of it, or they stop in one
of them, which did not fit or met a tagger that was not willing. -/
theorem Run.ends_passes {layout : Layout} {mode : Mode} {A B : Location} {s : Session}
    (hdry : mode.dryRun = false)
    (h : s.disk.Sides (layout.sourceRoot mode.direction) (layout.destinationRoot mode.direction)
      A B) {qs : List Path} (hinner : ∀ q ∈ qs, q.Inner) :
    Ends (qs.forM (pass layout mode)) s
      (fun _ s' => mode.Passes layout.rules A B s.disk s.tally qs s'.disk s'.tally)
      (fun _ s' => mode.Stopped layout.rules A B s.disk s.tally qs s'.disk) := by
  induction qs generalizing s with
  | nil => exact Ends.of_run_ok rfl .nil
  | cons q qs ih =>
    apply ((ends_pass hdry h (hinner q (by simp))).mono (fun _ _ h => h) ?_).bind ?_
    · rintro _ s' ⟨hwhy, habort⟩
      exact ⟨[], q, qs, s.disk, s.tally, rfl, .nil, hwhy, habort⟩
    · rintro _ s₁ ⟨hfits, ⟨ms, htally⟩, hpassed⟩
      have hrest := ih (h.kept hpassed.toKept) fun p hp => hinner p (by simp [hp])
      rw [htally] at hrest
      apply hrest.mono
      · intro _ s' hs'
        exact .cons ms hfits hpassed hs'
      · intro _ s' hs'
        exact hs'.cons ms hfits hpassed

/-- **A whole run** is the passes over all subdirectories. -/
theorem Run.ends_sync {layout : Layout} {mode : Mode} {A B : Location} {s : Session}
    (hdry : mode.dryRun = false)
    (h : s.disk.Sides (layout.sourceRoot mode.direction) (layout.destinationRoot mode.direction)
      A B) (hinner : ∀ q ∈ layout.subdirs, q.Inner) :
    Ends (sync layout mode) s
      (fun _ s' =>
        mode.Passes layout.rules A B s.disk s.tally layout.subdirs s'.disk s'.tally)
      (fun _ s' => mode.Stopped layout.rules A B s.disk s.tally layout.subdirs s'.disk) :=
  ends_passes hdry h hinner

/-- Two directories that exist on a plain disk, apart from each other, are the
sides of a run. -/
theorem Disk.Plain.sides {d : Disk} {S T : Path} {A B : Location} (hd : d.Plain)
    (hS : d.DirectoryAt S A) (hT : d.DirectoryAt T B) (hAB : ¬ A <+: B) (hBA : ¬ B <+: A) :
    d.Sides S T A B :=
  ⟨hd, hd.opens hS, hd.opens hT, hAB, hBA⟩

/-! ## A small disk -/

namespace Sample

/-- A name in a sample. -/
def name (s : String) : Name := Utf8.ofString s

/-- Two roots with a source file on the local side, and on the guest a file that
has no source any more and one that no rule is for. -/
def disk : Disk where
  start := []
  nodes := [([name "local"], .directory), ([name "guest"], .directory),
    ([name "local", name "a.c"], .file (Utf8.ofString "x\n") none),
    ([name "guest", name "old.c"], .file (Utf8.ofString "y") none),
    ([name "guest", name "notes"], .file (Utf8.ofString "z") none)]

/-- The roots of the sample, which are also its one subdirectory. -/
def layout : Layout where
  localRoot := Path.ofString "local"
  guestRoot := Path.ofString "guest"
  subdirs := [Path.ofString "."]
  rules := .standard

/-- A push that stores its tags on the disk. -/
def push : Mode := ⟨.push, false, .disk⟩

/-- A pull. -/
def pull : Mode := ⟨.pull, false, .disk⟩

theorem plain_disk : disk.Plain := IsPlain.plain (by decide +kernel)

theorem source_disk : disk.DirectoryAt (layout.sourceRoot push.direction) [name "local"] := by
  constructor <;> decide +kernel

theorem destination_disk :
    disk.DirectoryAt (layout.destinationRoot push.direction) [name "guest"] := by
  constructor <;> decide +kernel

theorem check_layout : layout.check = .ok () := by decide +kernel

/-- The session after a push of the sample. -/
def pushed : Session := ((Run.sync layout push).run (Session.start disk)).2

theorem run_push : (Run.sync layout push).run (Session.start disk) = (.ok (), pushed) := by
  have hok : ((Run.sync layout push).run (Session.start disk)).1 = .ok () := by decide +kernel
  rw [pushed, ← hok, Prod.mk.eta]

end Sample

/-! ## The exact result -/

section Exact

variable {layout : Layout} {mode : Mode} {d : Disk} {A B : Location} {s : Session}

theorem Run.passes_of_sync (hdry : mode.dryRun = false) (hcheck : layout.check = .ok ())
    (h : d.Sides (layout.sourceRoot mode.direction) (layout.destinationRoot mode.direction) A B)
    (hrun : (Run.sync layout mode).run (Session.start d) = (.ok (), s)) :
    mode.Passes layout.rules A B d .zero layout.subdirs s.disk s.tally :=
  (Run.ends_sync (s := Session.start d) hdry h (Path.inner_of_check hcheck)).ok hrun

/-- In a run that got through, every source file with a rule was converted. -/
theorem Mode.Passes.ready {rules : RuleTable} {S T : Path} {qs : List Path} {e : Disk}
    {t u : Tally} {q : Path} (h : mode.Passes rules A B d t qs e u) (hd : d.Sides S T A B)
    (hq : q ∈ qs) (n : Name) {rule : Rule} {content : Bytes}
    (hrule : rules.forEntry? n = some rule)
    (hsource : contentOf (d.node? (A ++ q.names ++ [n])) = some content) :
    ∃ output, convert rule.kind mode.direction content = .ok output := by
  induction h with
  | nil => simp at hq
  | cons ms fits passed rest ih =>
    rcases List.mem_cons.mp hq with rfl | hq
    · exact (fits.ready n rule content hrule hsource).1
    · apply ih (hd.kept passed.toKept) hq
      -- The source file is the one that was there at the start.
      rw [List.append_assoc, passed.source hd, ← List.append_assoc]
      exact hsource

end Exact

end GuestSync
