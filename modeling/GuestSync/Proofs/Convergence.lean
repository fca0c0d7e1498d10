/-
# GuestSync.Proofs.Convergence -- running again after anything

Whatever earlier runs did, complete or aborted, they left the destination such
that a run from there gives what a run from the untouched destination would have
given. `Left` is what every partial run preserves: directories stay, new ones lie
on the way to a destination directory, and a file that was not there before is a
recognized entry, written by a pass before which no pass had made a directory in
its place. Where the run from the old destination gets through, this is enough
for the other to get through, pass by pass, and both results are settled by the
same source.
-/
import GuestSync.Proofs.SyncEffect
import GuestSync.Proofs.DryRun

namespace GuestSync

open Disk

/-! ## What partial runs preserve -/

/-- The location is a recognized entry of a destination directory, and no pass
before the one for that directory makes a directory there. -/
def RuleTable.Claimed (rules : RuleTable) (B : Location) (qs : List Path) (m : Location) : Prop :=
  ∃ before q rest n, qs = before ++ q :: rest ∧ m = B ++ q.names ++ [n] ∧
    (rules.forEntry? n).isSome ∧ ∀ r ∈ before, ¬ m <+: B ++ r.names

/-- The view `v` is what earlier runs can have left of `v₀` outside the source. -/
structure RuleTable.Left (rules : RuleTable) (A B : Location) (qs : List Path)
    (v₀ v : Location → Option Node) : Prop where
  keeps : ∀ m, ¬ A <+: m → v₀ m = some .directory → v m = some .directory
  made : ∀ m, ¬ A <+: m → v m = some .directory →
    v₀ m = some .directory ∨ ∃ q ∈ qs, m <+: B ++ q.names
  written : ∀ m, ¬ A <+: m → (contentOf (v m)).isSome → v m = v₀ m ∨ rules.Claimed B qs m
  gone : ∀ m, ¬ A <+: m → v m = none → v₀ m = none ∨
    ∃ q ∈ qs, ∃ n, m = B ++ q.names ++ [n] ∧ (rules.forEntry? n).isSome

namespace RuleTable.Left

variable {mode : Mode} {rules : RuleTable} {S T : Path} {A B : Location} {qs : List Path}
variable {v₀ : Location → Option Node} {d e : Disk} {q : Path} {before rest : List Path}

theorem refl (v : Location → Option Node) : rules.Left A B qs v v :=
  ⟨fun _ _ h => h, fun _ _ h => .inl h, fun _ _ _ => .inl rfl, fun _ _ h => .inl h⟩

theorem of_outside (h : rules.Left A B qs v₀ d.node?)
    (hsame : ∀ m, ¬ A <+: m → e.node? m = d.node? m) : rules.Left A B qs v₀ e.node? := by
  refine ⟨?_, ?_, ?_, ?_⟩ <;> intro m hm <;> rw [hsame m hm]
  · exact h.keeps m hm
  · exact h.made m hm
  · exact h.written m hm
  · exact h.gone m hm

/-- Only what the first view has outside the source matters. -/
theorem rebase {v₁ v : Location → Option Node} (h : rules.Left A B qs v₀ v)
    (hsame : ∀ m, ¬ A <+: m → v₁ m = v₀ m) : rules.Left A B qs v₁ v := by
  refine ⟨?_, ?_, ?_, ?_⟩ <;> intro m hm <;> rw [hsame m hm]
  · exact h.keeps m hm
  · exact h.made m hm
  · exact h.written m hm
  · exact h.gone m hm

/-- What settling changes is a recognized entry that is no directory, and it does
not become one. -/
private theorem settled_ne {source old : Option Node} {n : Name}
    (hready : mode.Ready rules n source old) (hne : mode.settled rules n source old ≠ old) :
    (rules.forEntry? n).isSome ∧ old ≠ some .directory ∧
      mode.settled rules n source old ≠ some .directory := by
  refine ⟨?_, ?_, ?_⟩
  · by_contra hno
    exact hne (Mode.settled_of_no_rule (by simpa using hno))
  · rintro rfl
    exact hne (Mode.settled_directory hready)
  · rcases mode.settled_cases rules n source old with hx | hx | ⟨c, t, hx⟩
    · simp [hx]
    · exact absurd hx hne
    · simp [hx]

/-- The cases of a location after a pass that may have been aborted: it is as it
was, a directory on the way, or a recognized entry that is and was no directory. -/
private theorem aborted_cases {k l : Location} (h : mode.Aborted rules k l d e) (m : Location) :
    e.node? m = d.node? m ∨ (m <+: l ∧ e.node? m = some .directory) ∨
      ∃ n, m = l ++ [n] ∧ (rules.forEntry? n).isSome ∧ d.node? m ≠ some .directory ∧
        e.node? m ≠ some .directory := by
  by_cases hway : m <+: l
  · exact (h.way m hway).imp_right fun hnew => .inl ⟨hway, hnew.2⟩
  by_cases hentry : ∃ n, m = l ++ [n]
  · obtain ⟨n, rfl⟩ := hentry
    rcases h.entries n with hsame | ⟨-, hready, hnew⟩
    · exact .inl hsame
    · by_cases hsame : e.node? (l ++ [n]) = d.node? (l ++ [n])
      · exact .inl hsame
      · rw [hnew] at hsame ⊢
        exact .inr (.inr ⟨n, rfl, settled_ne hready hsame⟩)
  · left
    apply h.others m hway
    intro n heq
    exact hentry ⟨n, heq⟩

/-- **A pass that may have been aborted.** The passes before it have made their
directories. -/
theorem aborted (h : rules.Left A B qs v₀ d.node?) (hd : d.Plain)
    (hsplit : qs = before ++ q :: rest)
    (hbefore : ∀ r ∈ before, d.node? (B ++ r.names) = some .directory)
    (hpass : mode.Aborted rules (A ++ q.names) (B ++ q.names) d e) :
    rules.Left A B qs v₀ e.node? := by
  have hq : q ∈ qs := by simp [hsplit]
  refine ⟨?_, ?_, ?_, ?_⟩
  · intro m hm hv
    exact hpass.directories m (h.keeps m hm hv)
  · intro m hm hv
    rcases aborted_cases hpass m with hsame | ⟨hway, -⟩ | ⟨n, rfl, -, -, hnot⟩
    · exact h.made m hm (hsame ▸ hv)
    · exact .inr ⟨q, hq, hway⟩
    · exact absurd hv hnot
  · intro m hm hv
    rcases aborted_cases hpass m with hsame | ⟨-, hdir⟩ | ⟨n, rfl, hrule, hnot, -⟩
    · rw [hsame] at hv ⊢
      exact h.written m hm hv
    · simp [hdir, contentOf] at hv
    · refine .inr ⟨before, q, rest, n, hsplit, rfl, hrule, ?_⟩
      -- A pass before this one would have made a directory there.
      intro r hr hway
      exact hnot (hd.directory_of_prefix_directory hway (hbefore r hr))
  · intro m hm hv
    rcases aborted_cases hpass m with hsame | ⟨-, hdir⟩ | ⟨n, rfl, hrule, -, -⟩
    · exact h.gone m hm (hsame ▸ hv)
    · simp [hdir] at hv
    · exact .inr ⟨q, hq, n, rfl, hrule⟩

/-- Passes that got through, one after the other. -/
theorem passes {t u : Tally} {done : List Path} (h : rules.Left A B qs v₀ d.node?)
    (hd : d.Plain) (hsplit : qs = before ++ (done ++ rest))
    (hbefore : ∀ r ∈ before, d.node? (B ++ r.names) = some .directory)
    (hpasses : mode.Passes rules A B d t done e u) :
    rules.Left A B qs v₀ e.node? ∧
      ∀ r ∈ before ++ done, e.node? (B ++ r.names) = some .directory := by
  induction hpasses generalizing before with
  | nil => exact ⟨h, by simpa using hbefore⟩
  | @cons d e f t u q ps ms fits passed hrest ih =>
    have hhere : qs = before ++ q :: (ps ++ rest) := hsplit
    have hleft := h.aborted hd hhere hbefore (passed.aborted fits)
    have hnext : ∀ r ∈ before ++ [q], e.node? (B ++ r.names) = some .directory := by
      intro r hr
      rcases List.mem_append.mp hr with hr | hr
      · exact passed.directories _ (hbefore r hr)
      · rw [List.mem_singleton.mp hr]
        exact passed.way _ List.prefix_rfl
    obtain ⟨hend, hdirs⟩ := ih hleft passed.plain (by simpa using hsplit) hnext
    exact ⟨hend, by simpa using hdirs⟩

end RuleTable.Left

/-! ## Histories -/

/-- The source tree was edited: both roots are still there, and nothing outside the
source is changed. -/
structure Layout.Edited (layout : Layout) (direction : Direction) (A B : Location) (d e : Disk) :
    Prop where
  plain : e.Plain
  source : e.DirectoryAt (layout.sourceRoot direction) A
  destination : e.DirectoryAt (layout.destinationRoot direction) B
  outside : ∀ m, ¬ A <+: m → e.node? m = d.node? m

/-- What can become of a disk when the source is edited and runs in one direction
are made, in any order. A run may end in any way, with any tagger, and may be a dry
run. -/
inductive Layout.History (layout : Layout) (direction : Direction) (A B : Location) :
    Disk → Disk → Prop
  | start {d : Disk} : History layout direction A B d d
  | edited {d e f : Disk} (before : History layout direction A B d e)
      (edit : layout.Edited direction A B e f) : History layout direction A B d f
  | ran {d e : Disk} {mode : Mode} {result : Except Failure Unit} {s : Session}
      (before : History layout direction A B d e) (same : mode.direction = direction)
      (run : (Run.sync layout mode).run (Session.start e) = (result, s)) :
      History layout direction A B d s.disk

section History

variable {layout : Layout} {mode : Mode} {A B : Location}

/-- A run, whatever comes of it. -/
theorem RuleTable.Left.run {v₀ : Location → Option Node} {d : Disk}
    {result : Except Failure Unit} {s : Session}
    (h : layout.rules.Left A B layout.subdirs v₀ d.node?)
    (hsides : d.Sides (layout.sourceRoot mode.direction) (layout.destinationRoot mode.direction) A B)
    (hinner : ∀ q ∈ layout.subdirs, q.Inner)
    (hrun : (Run.sync layout mode).run (Session.start d) = (result, s)) :
    d.Kept s.disk ∧ layout.rules.Left A B layout.subdirs v₀ s.disk.node? := by
  cases hdry : mode.dryRun with
  | true =>
    have hsame := (Run.idle_sync hdry layout (Session.start d)).1
    rw [hrun] at hsame
    change s.disk = d at hsame
    rw [hsame]
    exact ⟨⟨rfl, hsides.plain, fun _ hm => hm⟩, h⟩
  | false =>
    have hends := Run.ends_sync (s := Session.start d) hdry hsides hinner
    cases result with
    | ok u =>
      have hpasses := hends.ok hrun
      have hall : layout.subdirs = [] ++ (layout.subdirs ++ []) := by simp
      exact ⟨hpasses.kept hsides.plain, (h.passes hsides.plain hall (by simp) hpasses).1⟩
    | error e =>
      obtain ⟨before, q, rest, e, u, hsplit, hpasses, -, hpass⟩ := hends.error hrun
      have hkept := hpasses.kept hsides.plain
      have hfirst : layout.subdirs = [] ++ (before ++ q :: rest) := hsplit
      obtain ⟨hleft, hdirs⟩ := h.passes hsides.plain hfirst (by simp) hpasses
      exact ⟨hkept.trans hpass.toKept, hleft.aborted hkept.plain hsplit hdirs hpass⟩

end History

/-! ## Two runs from what is left -/

/-- A run from `d₀` that got through, and another disk `d₁` with the same source
that earlier runs left of it. The runs may have different taggers. -/
structure Again (mode₀ mode₁ : Mode) (rules : RuleTable) (S T : Path) (A B : Location)
    (qs : List Path) (d₀ d₁ f₀ : Disk) : Prop where
  direction : mode₁.direction = mode₀.direction
  sides₀ : d₀.Sides S T A B
  sides₁ : d₁.Sides S T A B
  left : rules.Left A B qs d₀.node? d₁.node?
  source : ∀ x, d₁.node? (A ++ x) = d₀.node? (A ++ x)
  passes : ∃ t u, mode₀.Passes rules A B d₀ t qs f₀ u

namespace Again

variable {mode₀ mode₁ : Mode} {rules : RuleTable} {S T : Path} {A B : Location}
variable {qs before rest : List Path} {d₀ d₁ f₀ e₀ e₁ : Disk} {q : Path} {n : Name} {k : Location}

theorem convert_ok (h : Again mode₀ mode₁ rules S T A B qs d₀ d₁ f₀) (hq : q ∈ qs) {rule : Rule}
    {content : Bytes} (hrule : rules.forEntry? n = some rule)
    (hsource : contentOf (d₀.node? (A ++ q.names ++ [n])) = some content) :
    ∃ output, convert rule.kind mode₀.direction content = .ok output ∧
      convert rule.kind mode₁.direction content = .ok output := by
  obtain ⟨t, u, hpasses⟩ := h.passes
  obtain ⟨output, hconvert⟩ := hpasses.ready h.sides₀ hq n hrule hsource
  exact ⟨output, hconvert, h.direction ▸ hconvert⟩

/-- A claim on an entry is for the rule of its own name. -/
theorem rule_of_claimed (hk : rules.Claimed B qs (B ++ q.names ++ [n])) :
    (rules.forEntry? n).isSome := by
  obtain ⟨before, q', rest, n', -, heq, hrule, -⟩ := hk
  rwa [(entry_inj heq).2]

/-- What an entry ends as in the two runs, if it is settled in both: the same
content, or what stood there. -/
theorem settled_both (h : Again mode₀ mode₁ rules S T A B qs d₀ d₁ f₀) (hq : q ∈ qs)
    (x₀ x₁ : Option Node) (n : Name) :
    (∃ c t₀ t₁,
      mode₀.settled rules n (d₀.node? (A ++ q.names ++ [n])) x₀ = some (.file c t₀) ∧
      mode₁.settled rules n (d₁.node? (A ++ q.names ++ [n])) x₁ = some (.file c t₁)) ∨
    ((rules.forEntry? n).isSome ∧
      mode₀.settled rules n (d₀.node? (A ++ q.names ++ [n])) x₀ =
        (if (contentOf x₀).isSome then none else x₀) ∧
      mode₁.settled rules n (d₁.node? (A ++ q.names ++ [n])) x₁ =
        if (contentOf x₁).isSome then none else x₁) ∨
    (rules.forEntry? n = none ∧
      mode₀.settled rules n (d₀.node? (A ++ q.names ++ [n])) x₀ = x₀ ∧
      mode₁.settled rules n (d₁.node? (A ++ q.names ++ [n])) x₁ = x₁) := by
  have hsame : d₁.node? (A ++ q.names ++ [n]) = d₀.node? (A ++ q.names ++ [n]) := by
    rw [List.append_assoc, h.source]
  rw [hsame]
  cases hrule : rules.forEntry? n with
  | none =>
    exact .inr (.inr ⟨rfl, Mode.settled_of_no_rule hrule, Mode.settled_of_no_rule hrule⟩)
  | some rule =>
    cases hsource : contentOf (d₀.node? (A ++ q.names ++ [n])) with
    | none =>
      exact .inr (.inl ⟨rfl, Mode.settled_of_no_content hrule hsource,
        Mode.settled_of_no_content hrule hsource⟩)
    | some content =>
      obtain ⟨output, h₀, h₁⟩ := h.convert_ok hq hrule hsource
      exact .inl ⟨output, _, _, Mode.settled_of_output hrule hsource h₀,
        Mode.settled_of_output hrule hsource h₁⟩

/-- Where the run from the old disk has a directory, the other has one. -/
theorem directory (h : Again mode₀ mode₁ rules S T A B qs d₀ d₁ f₀) (hsub : ∀ q ∈ before, q ∈ qs)
    (hs₀ : mode₀.Synced rules A B before d₀.node? e₀.node?)
    (hs₁ : mode₁.Synced rules A B before d₁.node? e₁.node?) (hk : ¬ A <+: k)
    (hdir : e₀.node? k = some .directory) : e₁.node? k = some .directory := by
  by_cases hway : ∃ q ∈ before, k <+: B ++ q.names
  · obtain ⟨q, hq, hp⟩ := hway
    exact hs₁.ways q hq k hp
  push Not at hway
  -- Off the ways an entry is settled in both runs, and the rest is as it was.
  by_cases hentry : ∃ q ∈ before, ∃ n, k = B ++ q.names ++ [n]
  · obtain ⟨q, hq, n, rfl⟩ := hentry
    rw [hs₀.entries q hq n hway] at hdir
    rw [hs₁.entries q hq n hway]
    rcases h.settled_both (hsub q hq) (d₀.node? (B ++ q.names ++ [n]))
      (d₁.node? (B ++ q.names ++ [n])) n with ⟨c, t₀, t₁, hx, -⟩ | ⟨-, hx, hy⟩ | ⟨-, hx, hy⟩
    · rw [hx] at hdir
      simp at hdir
    · rw [hx] at hdir
      have hold : d₀.node? (B ++ q.names ++ [n]) = some .directory := by
        split at hdir
        · simp at hdir
        · exact hdir
      rw [hy, h.left.keeps _ hk hold]
      rfl
    · rw [hy]
      exact h.left.keeps _ hk (hx ▸ hdir)
  · push Not at hentry
    rw [hs₀.others k hway hentry] at hdir
    rw [hs₁.others k hway hentry]
    exact h.left.keeps k hk hdir

/-- A directory that only the second run has is one that an earlier run made for
some pass. -/
theorem made (h : Again mode₀ mode₁ rules S T A B qs d₀ d₁ f₀) (hsub : ∀ q ∈ before, q ∈ qs)
    (hs₀ : mode₀.Synced rules A B before d₀.node? e₀.node?)
    (hs₁ : mode₁.Synced rules A B before d₁.node? e₁.node?) (hk : ¬ A <+: k)
    (hdir : e₁.node? k = some .directory) :
    e₀.node? k = some .directory ∨
      (∀ q ∈ before, ¬ k <+: B ++ q.names) ∧ ∃ q ∈ qs, k <+: B ++ q.names := by
  by_cases hway : ∃ q ∈ before, k <+: B ++ q.names
  · obtain ⟨q, hq, hp⟩ := hway
    exact .inl (hs₀.ways q hq k hp)
  push Not at hway
  have hold : d₁.node? k = some .directory →
      (d₀.node? k = some .directory → e₀.node? k = some .directory) →
        e₀.node? k = some .directory ∨
          (∀ q ∈ before, ¬ k <+: B ++ q.names) ∧ ∃ q ∈ qs, k <+: B ++ q.names := by
    intro hx hy
    rcases h.left.made k hk hx with hz | hq
    · exact .inl (hy hz)
    · exact .inr ⟨hway, hq⟩
  by_cases hentry : ∃ q ∈ before, ∃ n, k = B ++ q.names ++ [n]
  · obtain ⟨q, hq, n, rfl⟩ := hentry
    rw [hs₁.entries q hq n hway] at hdir
    rcases h.settled_both (hsub q hq) (d₀.node? (B ++ q.names ++ [n]))
      (d₁.node? (B ++ q.names ++ [n])) n with ⟨c, t₀, t₁, -, hy⟩ | ⟨-, hx, hy⟩ | ⟨-, hx, hy⟩
    · rw [hy] at hdir
      simp at hdir
    · rw [hy] at hdir
      apply hold
      · split at hdir
        · simp at hdir
        · exact hdir
      · intro hd
        rw [hs₀.entries q hq n hway, hx, hd]
        rfl
    · rw [hy] at hdir
      apply hold hdir
      intro hd
      rw [hs₀.entries q hq n hway, hx, hd]
  · push Not at hentry
    rw [hs₁.others k hway hentry] at hdir
    apply hold hdir
    intro hd
    rw [hs₀.others k hway hentry, hd]

/-- A file that the second run has the other has too, unless it lies where no pass
so far has come. -/
theorem content (h : Again mode₀ mode₁ rules S T A B qs d₀ d₁ f₀) (hsub : ∀ q ∈ before, q ∈ qs)
    (hs₀ : mode₀.Synced rules A B before d₀.node? e₀.node?)
    (hs₁ : mode₁.Synced rules A B before d₁.node? e₁.node?) (hk : ¬ A <+: k) {c : Bytes}
    (hfile : contentOf (e₁.node? k) = some c) :
    contentOf (e₀.node? k) = some c ∨
      (∀ q ∈ before, ¬ k <+: B ++ q.names) ∧ (∀ q ∈ before, ∀ n, k ≠ B ++ q.names ++ [n]) ∧
        rules.Claimed B qs k := by
  have hway : ∀ q ∈ before, ¬ k <+: B ++ q.names := by
    intro q hq hp
    rw [hs₁.ways q hq k hp] at hfile
    simp [contentOf] at hfile
  by_cases hentry : ∃ q ∈ before, ∃ n, k = B ++ q.names ++ [n]
  · obtain ⟨q, hq, n, rfl⟩ := hentry
    rw [hs₁.entries q hq n hway] at hfile
    rw [hs₀.entries q hq n hway]
    rcases h.settled_both (hsub q hq) (d₀.node? (B ++ q.names ++ [n]))
      (d₁.node? (B ++ q.names ++ [n])) n with ⟨c', t₀, t₁, hx, hy⟩ | ⟨-, hx, hy⟩ | ⟨hrule, hx, hy⟩
    · rw [hy] at hfile
      rw [hx]
      exact .inl hfile
    · rw [hy, contentOf_removed] at hfile
      simp at hfile
    · rw [hy] at hfile
      rw [hx]
      rcases h.left.written _ hk (by rw [hfile]; rfl) with hsame | hclaimed
      · exact .inl (hsame ▸ hfile)
      · have hsome := rule_of_claimed hclaimed
        simp [hrule] at hsome
  · push Not at hentry
    rw [hs₁.others k hway hentry] at hfile
    rw [hs₀.others k hway hentry]
    rcases h.left.written k hk (by rw [hfile]; rfl) with hsame | hclaimed
    · exact .inl (hsame ▸ hfile)
    · exact .inr ⟨hway, hentry, hclaimed⟩

/-- In the end the second run has every file that the other has. -/
theorem content_end (h : Again mode₀ mode₁ rules S T A B qs d₀ d₁ f₀)
    (hs₀ : mode₀.Synced rules A B qs d₀.node? e₀.node?)
    (hs₁ : mode₁.Synced rules A B qs d₁.node? e₁.node?) (hk : ¬ A <+: k) {c : Bytes}
    (hfile : contentOf (e₀.node? k) = some c) : contentOf (e₁.node? k) = some c := by
  have hway : ∀ q ∈ qs, ¬ k <+: B ++ q.names := by
    intro q hq hp
    rw [hs₀.ways q hq k hp] at hfile
    simp [contentOf] at hfile
  -- A file of `d₀` that no pass may delete is still there.
  have hold : contentOf (d₀.node? k) = some c →
      (∀ q ∈ qs, ∀ n, k = B ++ q.names ++ [n] → rules.forEntry? n = none) →
        contentOf (d₁.node? k) = some c := by
    intro hx hrule
    rcases h.sides₁.plain.node_cases k with hy | hy | ⟨c', t, hy⟩
    · rcases h.left.gone k hk hy with hz | ⟨q, hq, n, heq, hsome⟩
      · simp [hz, contentOf] at hx
      · simp [hrule q hq n heq] at hsome
    · rcases h.left.made k hk hy with hz | ⟨q, hq, hp⟩
      · simp [hz, contentOf] at hx
      · exact absurd hp (hway q hq)
    · rcases h.left.written k hk (by rw [hy]; rfl) with hz | ⟨b, q, r, n, hsplit, heq, hsome, -⟩
      · rwa [hz]
      · simp [hrule q (by simp [hsplit]) n heq] at hsome
  by_cases hentry : ∃ q ∈ qs, ∃ n, k = B ++ q.names ++ [n]
  · obtain ⟨q, hq, n, rfl⟩ := hentry
    rw [hs₀.entries q hq n hway] at hfile
    rw [hs₁.entries q hq n hway]
    rcases h.settled_both hq (d₀.node? (B ++ q.names ++ [n]))
      (d₁.node? (B ++ q.names ++ [n])) n with ⟨c', t₀, t₁, hx, hy⟩ | ⟨-, hx, hy⟩ | ⟨hrule, hx, hy⟩
    · rw [hx] at hfile
      rw [hy]
      exact hfile
    · rw [hx, contentOf_removed] at hfile
      simp at hfile
    · rw [hx] at hfile
      rw [hy]
      apply hold hfile
      intro q' _ n' heq
      rwa [← (entry_inj heq).2]
  · push Not at hentry
    rw [hs₀.others k hway hentry] at hfile
    rw [hs₁.others k hway hentry]
    exact hold hfile fun q hq n heq => absurd heq (hentry q hq n)

/-- Where a name stands in a list of passes, seen from one of them. -/
private theorem mem_or_eq_or_mem {b r : List Path} {q' : Path}
    (h : before ++ q :: rest = b ++ q' :: r) : q' ∈ before ∨ q' = q ∨ q ∈ b := by
  rcases List.append_eq_append_iff.mp h with ⟨x, rfl, hx⟩ | ⟨x, rfl, hx⟩
  · cases x with
    | nil =>
      rw [List.nil_append, List.cons.injEq] at hx
      exact .inr (.inl hx.1.symm)
    | cons y x =>
      rw [List.cons_append, List.cons.injEq] at hx
      exact .inr (.inr (by simp [hx.1]))
  · cases x with
    | nil =>
      rw [List.nil_append, List.cons.injEq] at hx
      exact .inr (.inl hx.1)
    | cons y x =>
      rw [List.cons_append, List.cons.injEq] at hx
      exact .inl (by simp [hx.1])

/-- The first pass with some property. -/
private theorem exists_first {P : Path → Prop} {ps : List Path} (h : ∃ p ∈ ps, P p) :
    ∃ b p r, ps = b ++ p :: r ∧ P p ∧ ∀ x ∈ b, ¬ P x := by
  induction ps with
  | nil => simp at h
  | cons p ps ih =>
    by_cases hp : P p
    · exact ⟨[], p, ps, rfl, hp, by simp⟩
    · obtain ⟨b, p', r, rfl, hp', hb⟩ := ih (by simpa [hp] using h)
      exact ⟨p :: b, p', r, rfl, hp', by simpa [hp] using hb⟩

/-- In the run that got through, no pass makes a directory where an earlier one has
written a file. -/
theorem no_directory_later (h : Again mode₀ mode₁ rules S T A B qs d₀ d₁ f₀)
    (hsplit : qs = before ++ q :: rest) {rule : Rule} {content : Bytes}
    (hrule : rules.forEntry? n = some rule)
    (hsource : contentOf (d₀.node? (A ++ q.names ++ [n])) = some content)
    (hbefore : ∀ r ∈ before, ¬ B ++ q.names ++ [n] <+: B ++ r.names) :
    ∀ r ∈ qs, ¬ B ++ q.names ++ [n] <+: B ++ r.names := by
  by_contra hno
  push Not at hno
  have hself : ¬ B ++ q.names ++ [n] <+: B ++ q.names := by
    intro hp
    simpa using hp.length_le
  have hrest : ∃ r ∈ rest, B ++ q.names ++ [n] <+: B ++ r.names := by
    obtain ⟨r, hr, hp⟩ := hno
    rw [hsplit, List.mem_append, List.mem_cons] at hr
    rcases hr with hr | rfl | hr
    · exact absurd hp (hbefore r hr)
    · exact absurd hp hself
    · exact ⟨r, hr, hp⟩
  -- The first pass that wants a directory there finds the file.
  obtain ⟨b, r, c, rfl, hp, hb⟩ := exists_first hrest
  obtain ⟨t, u, hpasses⟩ := h.passes
  rw [hsplit, show before ++ q :: (b ++ r :: c) = (before ++ q :: b) ++ (r :: c) by simp]
    at hpasses
  obtain ⟨e, u', hfirst, hthen⟩ := hpasses.split
  have hway : ∀ p ∈ before ++ q :: b, ¬ B ++ q.names ++ [n] <+: B ++ p.names := by
    intro p hp
    rw [List.mem_append, List.mem_cons] at hp
    rcases hp with hp | rfl | hp
    · exact hbefore p hp
    · exact hself
    · exact hb p hp
  have hentry := (hfirst.synced h.sides₀).entries q (by simp) n hway
  obtain ⟨output, hconvert, -⟩ := h.convert_ok (q := q) (by simp [hsplit]) hrule hsource
  rw [Mode.settled_of_output hrule hsource hconvert] at hentry
  cases hthen with
  | cons ms fits passed hlater =>
    have hfree := fits.free _ hp
    rw [hentry] at hfree
    simp at hfree

/-- No file is on the way to a destination for which the way was free in the run
from the old disk. -/
theorem wayFree (h : Again mode₀ mode₁ rules S T A B qs d₀ d₁ f₀)
    (hsplit : qs = before ++ q :: rest)
    (hs₀ : mode₀.Synced rules A B before d₀.node? e₀.node?)
    (hs₁ : mode₁.Synced rules A B before d₁.node? e₁.node?) (he₁ : e₁.Plain)
    (hfree : e₀.WayFree (B ++ q.names)) : e₁.WayFree (B ++ q.names) := by
  have hsub : ∀ p ∈ before, p ∈ qs := by
    intro p hp
    simp [hsplit, hp]
  intro k hk
  rcases he₁.node_cases k with hx | hx | ⟨c, t, hx⟩
  · exact .inl hx
  · exact .inr hx
  exfalso
  have hfile : contentOf (e₁.node? k) = some c := by rw [hx]; rfl
  rcases h.content hsub hs₀ hs₁ (h.sides₀.not_inside_of_prefix hk) hfile with
    hsame | ⟨-, hentry, b, q', r, n, hsplit', heq, -, hb⟩
  · obtain ⟨t', hy⟩ := contentOf_eq_some.mp hsame
    rcases hfree k hk with hfree | hfree <;> simp [hy] at hfree
  · -- The file is claimed by a pass: an earlier one has settled it, this one works
    -- below the way, and a later one claims no place on the way of this one.
    rcases mem_or_eq_or_mem (hsplit ▸ hsplit') with hq' | rfl | hq
    · exact hentry q' hq' n heq
    · rw [heq] at hk
      simpa using hk.length_le
    · exact hb q hq hk

/-- Where a file is to go that could go there in the run from the old disk, no
directory is in its way. -/
theorem ready (h : Again mode₀ mode₁ rules S T A B qs d₀ d₁ f₀)
    (hsplit : qs = before ++ q :: rest)
    (hs₀ : mode₀.Synced rules A B before d₀.node? e₀.node?)
    (hs₁ : mode₁.Synced rules A B before d₁.node? e₁.node?)
    (hready : mode₀.Ready rules n (d₀.node? (A ++ q.names ++ [n])) (e₀.node? (B ++ q.names ++ [n]))) :
    mode₁.Ready rules n (d₀.node? (A ++ q.names ++ [n])) (e₁.node? (B ++ q.names ++ [n])) := by
  have hsub : ∀ p ∈ before, p ∈ qs := by
    intro p hp
    simp [hsplit, hp]
  intro rule content hrule hcontent
  obtain ⟨⟨output, hconvert⟩, hfree⟩ := hready rule content hrule hcontent
  refine ⟨⟨output, h.direction ▸ hconvert⟩, ?_⟩
  intro hdir
  have hout : ¬ A <+: B ++ q.names ++ [n] := by
    rw [List.append_assoc]
    exact h.sides₀.not_inside_of_prefix List.prefix_rfl
  rcases h.made hsub hs₀ hs₁ hout hdir with hdir₀ | ⟨hway, r, hr, hp⟩
  · exact hfree hdir₀
  · exact h.no_directory_later hsplit hrule hcontent hway r hr hp

/-- **Each pass fits again.** After the same passes, what fits in the run from the
old disk fits in the other. -/
theorem fits (h : Again mode₀ mode₁ rules S T A B qs d₀ d₁ f₀) (hsplit : qs = before ++ q :: rest)
    {t u : Tally} (hbefore : mode₁.Passes rules A B d₁ t before e₁ u) :
    e₁.Fits mode₁ rules A B q := by
  obtain ⟨t₀, u₀, hpasses⟩ := h.passes
  rw [hsplit] at hpasses
  obtain ⟨e₀, t', hfirst, hthen⟩ := hpasses.split
  have hfits : e₀.Fits mode₀ rules A B q := by
    cases hthen with
    | cons ms fits passed hlater => exact fits
  have hs₀ := hfirst.synced h.sides₀
  have hs₁ := hbefore.synced h.sides₁
  have hsource₀ : ∀ x, e₀.node? (A ++ x) = d₀.node? (A ++ x) := by
    intro x
    exact hfirst.source h.sides₀ x
  have hsource₁ : ∀ x, e₁.node? (A ++ x) = d₀.node? (A ++ x) := by
    intro x
    rw [hbefore.source h.sides₁, h.source]
  refine ⟨?_, ?_, ?_, ?_⟩
  · exact h.wayFree hsplit hs₀ hs₁ (hbefore.kept h.sides₁.plain).plain hfits.free
  · intro hend
    apply h.directory (fun p hp => by simp [hsplit, hp]) hs₀ hs₁
    · exact h.sides₀.not_inside_of_prefix List.prefix_rfl
    · exact hfits.seated hend
  · have hlist := hfits.listable
    unfold Listable at hlist ⊢
    rwa [hsource₁, ← hsource₀]
  · intro n
    have hready := hfits.ready n
    rw [List.append_assoc A, hsource₀, ← List.append_assoc A] at hready
    rw [List.append_assoc A, hsource₁, ← List.append_assoc A]
    exact h.ready hsplit hs₀ hs₁ hready

/-- The run from what is left gets through. -/
theorem passes_again {layout : Layout} {s : Session}
    (h : Again mode₀ mode₁ layout.rules (layout.sourceRoot mode₁.direction)
      (layout.destinationRoot mode₁.direction) A B layout.subdirs d₀ s.disk f₀)
    (hinner : ∀ q ∈ layout.subdirs, q.Inner) (hdry : mode₁.dryRun = false)
    (hwilling : mode₁.tagger.Willing) :
    ∃ s', (Run.sync layout mode₁).run s = (.ok (), s') ∧
      mode₁.Passes layout.rules A B s.disk s.tally layout.subdirs s'.disk s'.tally := by
  have hends := Run.ends_sync hdry h.sides₁ hinner
  rcases hrun : (Run.sync layout mode₁).run s with ⟨e | u, s'⟩
  · obtain ⟨before, q, rest, g, u, hsplit, hbefore, hwhy, -⟩ := hends.error hrun
    rcases hwhy with hno | hno
    · exact absurd (h.fits hsplit hbefore) hno
    · exact absurd hwilling hno
  · exact ⟨s', rfl, hends.ok hrun⟩

/-- Both runs leave the same directories and the same contents. -/
theorem same_end (h : Again mode₀ mode₁ rules S T A B qs d₀ d₁ f₀) {t₀ u₀ t₁ u₁ : Tally} {f₁ : Disk}
    (h₀ : mode₀.Passes rules A B d₀ t₀ qs f₀ u₀) (h₁ : mode₁.Passes rules A B d₁ t₁ qs f₁ u₁)
    (m : Location) :
    (f₁.node? m = some .directory ↔ f₀.node? m = some .directory) ∧
      contentOf (f₁.node? m) = contentOf (f₀.node? m) := by
  by_cases hm : A <+: m
  · obtain ⟨x, rfl⟩ := hm
    have hsame : f₁.node? (A ++ x) = f₀.node? (A ++ x) := by
      rw [h₁.source h.sides₁, h₀.source h.sides₀, h.source]
    rw [hsame]
    exact ⟨Iff.rfl, rfl⟩
  · have hs₀ := h₀.synced h.sides₀
    have hs₁ := h₁.synced h.sides₁
    refine ⟨⟨?_, h.directory (fun _ hq => hq) hs₀ hs₁ hm⟩, Option.ext fun c =>
      ⟨?_, h.content_end hs₀ hs₁ hm⟩⟩
    · intro hdir
      rcases h.made (fun _ hq => hq) hs₀ hs₁ hm hdir with hdir₀ | ⟨hway, q, hq, hp⟩
      · exact hdir₀
      · exact absurd hp (hway q hq)
    · intro hc
      rcases h.content (fun _ hq => hq) hs₀ hs₁ hm hc with
        hc₀ | ⟨-, hentry, b, q, r, n, hsplit, heq, -⟩
      · exact hc₀
      · exact absurd heq (hentry q (by simp [hsplit]) n)

end Again

/-! ## Convergence -/

section Convergence

variable {layout : Layout} {direction : Direction} {A B : Location} {d d₀ d₁ : Disk}

/-- What holds after any history. -/
theorem Layout.History.left (h : layout.History direction A B d d₁)
    (hd : d.Sides (layout.sourceRoot direction) (layout.destinationRoot direction) A B)
    (hinner : ∀ q ∈ layout.subdirs, q.Inner) :
    d₁.Sides (layout.sourceRoot direction) (layout.destinationRoot direction) A B ∧
      layout.rules.Left A B layout.subdirs d.node? d₁.node? := by
  induction h with
  | start => exact ⟨hd, .refl _⟩
  | edited before edit ih =>
    obtain ⟨hsides, hleft⟩ := ih
    exact ⟨edit.plain.sides edit.source edit.destination hd.outside hd.inside,
      hleft.of_outside edit.outside⟩
  | ran before same run ih =>
    obtain ⟨hsides, hleft⟩ := ih
    subst same
    obtain ⟨hkept, hleft'⟩ := hleft.run hsides hinner run
    exact ⟨hsides.kept hkept, hleft'⟩

end Convergence

namespace Sample

/-- A push whose tagger refuses. -/
def refused : Mode := ⟨.push, false, .listener fun _ _ _ => some "no"⟩

/-- What a refused push leaves: the file is there without its tag, and nothing was
deleted yet. -/
def interrupted : Session := ((Run.sync layout refused).run (Session.start disk)).2

theorem interrupted_disk :
    interrupted.disk = disk.put [name "guest", name "a.c"] (.file (Utf8.ofString "x\r") none) := by
  decide +kernel

end Sample

end GuestSync
