/-
# GuestSync.Proofs.EntryRuns -- a run among links that no rule is for

Every action of a pass is about an entry of its destination directory that has a rule.
So where no link has a name with a rule, a pass changes entries of the one directory
that its path leads to and makes directories on the way there, and that directory is
found in the same place to the end of the run. Two passes meet in an entry only if
their paths lead to the same directory.
-/
import GuestSync.Proofs.EntryPlaces
import GuestSync.Proofs.RunPairs

namespace GuestSync

open Disk

/-- The action is about an entry of a directory that has a rule and one of certain
names, or it changes nothing. -/
inductive Action.Within (rules : RuleTable) (T : Path) (N : Name → Prop) : Action → Prop
  | convert {n : Name} (source : Path) (rule : Rule) (proper : Name.Proper n)
      (recognized : (rules.forEntry? n).isSome) (named : N n) :
      Within rules T N (.convert source (T.child n) rule)
  | delete {n : Name} (proper : Name.Proper n) (recognized : (rules.forEntry? n).isSome)
      (named : N n) : Within rules T N (.delete (T.child n))
  | skip (path : Path) (reason : SkipReason) : Within rules T N (.skip path reason)

section Actions

variable {rules : RuleTable} {S T : Path} {d : Disk} {l : Location} {n : Name} {N : Name → Prop}

/-- The name and the rule that an entry is converted by. -/
theorem entry_of_verdict_ok {name : String} {rule : Rule}
    (h : (d.entry S n).verdict rules = .ok (name, rule)) :
    Path.ofString name = ⟨n⟩ ∧ (rules.forEntry? n).isSome := by
  have hname : Utf8.toString? n = some name := Run.name_of_verdict_ok h
  refine ⟨by rw [Path.ofString, Utf8.ofString_of_toString? hname], ?_⟩
  unfold Entry.verdict at h
  rw [show (d.entry S n).name = some name from hname] at h
  dsimp only at h
  cases hrule : rules.forName? name with
  | none => simp [hrule] at h
  | some rule' => simp [RuleTable.forEntry?, hname, hrule]

theorem within_sourceAction (hn : Name.Proper n) (hN : N n) :
    ((d.entry S n).sourceAction rules T).Within rules T N := by
  unfold Entry.sourceAction
  cases hverdict : (d.entry S n).verdict rules with
  | error reason => exact .skip _ _
  | ok v =>
    obtain ⟨name, rule⟩ := v
    obtain ⟨hpath, hrule⟩ := entry_of_verdict_ok hverdict
    dsimp only
    rw [hpath]
    exact .convert _ _ hn hrule hN

theorem within_destinationAction {expected : List String} {a : Action} (hn : Name.Proper n)
    (hN : ∀ name, Utf8.toString? n = some name → name ∉ expected → N n)
    (h : (d.entry T n).destinationAction? rules expected = some a) : a.Within rules T N := by
  unfold Entry.destinationAction? at h
  split at h
  · next hstale =>
    obtain rfl := Option.some.inj h
    unfold Entry.isStale at hstale
    rw [show (d.entry T n).name = Utf8.toString? n from rfl] at hstale
    cases hname : Utf8.toString? n with
    | none => simp [hname] at hstale
    | some name =>
      simp only [hname, Bool.and_eq_true, RuleTable.recognizes, Bool.not_eq_true',
        List.contains_eq_mem, decide_eq_false_iff_not] at hstale
      exact .delete hn (by simpa [RuleTable.forEntry?, hname] using hstale.1.2)
        (hN name hname hstale.2)
  · simp at h

/-- The names in a directory, or none. -/
theorem names_of_entries {es : List Entry}
    (hproper : ∀ l n, d.node? (l ++ [n]) ≠ none → Name.Proper n) (h : d.entries S = .ok es) :
    ∃ ns : List Name, es = ns.map (d.entry S) ∧ (∀ n ∈ ns, Name.Proper n) ∧ ns.Nodup := by
  unfold entries list at h
  cases hloc : d.locate .followed S.steps with
  | error e => simp [hloc, bind, Except.bind] at h
  | ok m =>
    simp only [hloc, bind, Except.bind] at h
    cases hm : d.node? m with
    | none => simp [hm] at h
    | some x =>
      by_cases hx : x = .directory
      · subst hx
        obtain rfl : (d.children m).map (d.entry S) = es := by
          simpa [hm, pure, Except.pure] using h
        refine ⟨d.children m, rfl, ?_, nodup_children d m⟩
        intro n hn
        exact hproper m n (mem_children_iff.mp hn)
      · obtain rfl : es = [] := by
          cases x <;> simp_all [pure, Except.pure]
        exact ⟨[], rfl, by simp, List.nodup_nil⟩

end Actions

/-- What is done with the entries of a subdirectory's source. -/
def Layout.deal (layout : Layout) (mode : Mode) (q : Path) (entries : List Entry) : Run Unit :=
  (entries.map (Entry.sourceAction layout.rules
    ((layout.destinationRoot mode.direction).join q))).forM (Run.execute mode q)

namespace Run

section Steps

variable {mode : Mode} {q S T : Path} {rule : Rule} {rules : RuleTable} {s s' : Session}
variable {l : Location} {N : Name → Prop}

/-- What a conversion that got through has done: the destination held the converted
content or got it, and then it may have got a tag. -/
theorem convertFile_of_run_ok (hdry : mode.dryRun = false)
    (h : (convertFile mode q S T rule).run s = (.ok (), s')) :
    ∃ content output d, s.disk.read S = .ok content ∧
      convert rule.kind mode.direction content = .ok output ∧
      (d = s.disk ∧ d.read T = .ok output ∨ s.disk.write T output = .ok d) ∧
      (s'.disk = d ∨ d.setTag T rule.info.block = .ok s'.disk) := by
  cases outcome_convertFile h with
  | tagged tags placed answer =>
    obtain ⟨⟨content, hread, hconvert⟩, hin⟩ := placed.real hdry
    refine ⟨content, _, _, hread, hconvert, hin, ?_⟩
    obtain ⟨-, htag⟩ | ⟨-, hsame⟩ := Tagger.answer_ok answer
    · exact .inr htag
    · exact .inl hsame
  | converted tags placed =>
    obtain ⟨⟨content, hread, hconvert⟩, hin⟩ := placed.real hdry
    exact ⟨content, _, _, hread, hconvert, hin, .inl rfl⟩

/-- An action changes its own entry and nothing else. -/
theorem changed_of_execute {a : Action} (hdry : mode.dryRun = false) (ha : a.Within rules T N)
    (hs : s.disk.Unlinked rules) (hT : s.disk.DirectoryAt T l) (hne : T.isEmpty = false)
    (h : (execute mode q a).run s = (.ok (), s')) : s.disk.EntriesChanged rules l N s'.disk := by
  cases ha with
  | convert source rule proper recognized named =>
    obtain ⟨content, output, d, -, -, hwrite, htag⟩ := convertFile_of_run_ok hdry h
    have hplaced : s.disk.EntriesChanged rules l N d := by
      rcases hwrite with ⟨rfl, -⟩ | hwrite
      · exact .refl hs
      · exact hs.write_entry hT hne proper recognized named hwrite
    rcases htag with hsame | htag
    · rwa [hsame]
    · exact hplaced.trans (hplaced.unlinked.setTag_entry (hT.steady hplaced.steady) hne proper
        recognized named htag)
  | delete proper recognized named =>
    cases outcome_execute h with
    | deleted real remove => exact hs.remove_entry hT hne proper recognized named remove
    | doomed dry => simp [hdry] at dry
  | skip path reason =>
    cases outcome_execute h with
    | skipped => exact .refl hs

/-- **A loop over actions** changes their entries and nothing else. -/
theorem changed_of_loop {as : List Action} (hdry : mode.dryRun = false)
    (has : ∀ a ∈ as, a.Within rules T N) (hs : s.disk.Unlinked rules)
    (hT : s.disk.DirectoryAt T l) (hne : T.isEmpty = false)
    (h : (as.forM (execute mode q)).run s = (.ok (), s')) :
    s.disk.EntriesChanged rules l N s'.disk := by
  induction as generalizing s with
  | nil =>
    obtain ⟨-, rfl⟩ := Prod.mk.inj h
    exact .refl hs
  | cons a as ih =>
    obtain ⟨_, s₁, hfirst, hrest⟩ := run_bind_eq_ok.mp h
    have hone := changed_of_execute hdry (has a (by simp)) hs hT hne hfirst
    exact hone.trans (ih (fun b hb => has b (by simp [hb])) hone.unlinked (hT.steady hone.steady)
      hrest)

/-- A cleanup changes entries that are not expected. -/
theorem changed_of_cleanUp {plan : Plan} (hdry : mode.dryRun = false)
    (hN : ∀ n name, Utf8.toString? n = some name → name ∉ plan.expected → N n)
    (hs : s.disk.Unlinked rules) (hT : s.disk.DirectoryAt T l) (hne : T.isEmpty = false)
    (h : (cleanUp rules mode q T plan).run s = (.ok (), s')) :
    s.disk.EntriesChanged rules l N s'.disk := by
  obtain ⟨entries, _, hlist, hloop⟩ := run_bind_eq_ok.mp h
  obtain ⟨hentries, rfl⟩ := list_of_run_ok hlist
  obtain ⟨ns, rfl, hproper, -⟩ := names_of_entries hs.proper hentries
  refine changed_of_loop hdry ?_ hs hT hne hloop
  intro a ha
  obtain ⟨e, he, hact⟩ := List.mem_filterMap.mp ha
  obtain ⟨n, hn, rfl⟩ := List.mem_map.mp he
  exact within_destinationAction (hproper n hn) (hN n) hact

end Steps

section Passes

variable {layout : Layout} {mode : Mode} {q : Path} {s s' : Session}

/-- Dealing with source entries changes the entries of their names. -/
theorem changed_of_deal {d : Disk} {S : Path} {ns : List Name} {l : Location} {N : Name → Prop}
    (hdry : mode.dryRun = false) (hproper : ∀ n ∈ ns, Name.Proper n) (hN : ∀ n ∈ ns, N n)
    (hs : s.disk.Unlinked layout.rules)
    (hT : s.disk.DirectoryAt ((layout.destinationRoot mode.direction).join q) l)
    (hne : ((layout.destinationRoot mode.direction).join q).isEmpty = false)
    (h : (layout.deal mode q (ns.map (d.entry S))).run s = (.ok (), s')) :
    s.disk.EntriesChanged layout.rules l N s'.disk := by
  refine changed_of_loop hdry ?_ hs hT hne h
  intro a ha
  obtain ⟨e, he, rfl⟩ := List.mem_map.mp ha
  obtain ⟨n, hn, rfl⟩ := List.mem_map.mp he
  exact within_sourceAction (hproper n hn) (hN n hn)

/-- **A pass** changes entries of the directory that its destination path leads to, and
for the rest it only adds to what is there. -/
theorem pass_entries (hdry : mode.dryRun = false)
    (hne : ((layout.destinationRoot mode.direction).join q).isEmpty = false)
    (hs : s.disk.Unlinked layout.rules) (h : (pass layout mode q).run s = (.ok (), s')) :
    s.disk.Steady s'.disk ∧ s'.disk.Unlinked layout.rules ∧
      ∃ l, s'.disk.DirectoryAt ((layout.destinationRoot mode.direction).join q) l ∧
        ∀ m x, s.disk.node? m = some x → (∀ n, m ≠ l ++ [n]) → s'.disk.node? m = some x := by
  obtain ⟨s₁, s₂, entries, hmake, hentries, hloop, hclean⟩ := pass_of_run_ok hdry h
  have hmade := makeDirectories_of_run_ok hmake
  obtain ⟨hsteady, hunlinked, hdir⟩ := hs.makeDirectories hne
  rw [hmade] at hsteady hunlinked hdir
  obtain ⟨l, hT⟩ := hdir rfl
  obtain ⟨ns, rfl, hproper, -⟩ := names_of_entries hunlinked.proper hentries
  have hloop' : s₁.disk.EntriesChanged layout.rules l (fun _ => True) s₂.disk :=
    changed_of_deal hdry hproper (fun _ _ => trivial) hunlinked hT hne hloop
  have hchanged := hloop'.trans (changed_of_cleanUp hdry (fun _ _ _ _ => trivial) hloop'.unlinked
    (hT.steady hloop'.steady) hne hclean)
  refine ⟨hsteady.trans hchanged.steady, hchanged.unlinked, l, hT.steady hchanged.steady, ?_⟩
  intro m x hm hnot
  rw [hchanged.others m fun n _ => hnot n]
  have hkept := makeDirectories_keeps s.disk ((layout.destinationRoot mode.direction).join q) hm
  rwa [hmade] at hkept

variable {qs : List Path}

theorem steady_of_passes (hdry : mode.dryRun = false)
    (hne : ∀ r ∈ qs, ((layout.destinationRoot mode.direction).join r).isEmpty = false)
    (hs : s.disk.Unlinked layout.rules) (h : (qs.forM (pass layout mode)).run s = (.ok (), s')) :
    s.disk.Steady s'.disk ∧ s'.disk.Unlinked layout.rules := by
  induction qs generalizing s with
  | nil =>
    obtain ⟨-, rfl⟩ := Prod.mk.inj h
    exact ⟨.refl _, hs⟩
  | cons r qs ih =>
    obtain ⟨_, s₁, hfirst, hrest⟩ := run_bind_eq_ok.mp h
    obtain ⟨hsteady, hunlinked, -⟩ := pass_entries hdry (hne r (by simp)) hs hfirst
    obtain ⟨hsteady', hunlinked'⟩ := ih (fun r hr => hne r (by simp [hr])) hunlinked hrest
    exact ⟨hsteady.trans hsteady', hunlinked'⟩

/-- **Passes for other directories** leave the entries of a directory as they are. -/
theorem kept_of_passes {T : Path} {l : Location} {n : Name} {x : Node} (hdry : mode.dryRun = false)
    (hne : ∀ r ∈ qs, ((layout.destinationRoot mode.direction).join r).isEmpty = false)
    (hs : s.disk.Unlinked layout.rules) (h : (qs.forM (pass layout mode)).run s = (.ok (), s'))
    (hT : s.disk.DirectoryAt T l) (hx : s.disk.node? (l ++ [n]) = some x)
    (hapart : ∀ r ∈ qs,
      s'.disk.locate .followed ((layout.destinationRoot mode.direction).join r).steps ≠
        s'.disk.locate .followed T.steps) :
    s'.disk.node? (l ++ [n]) = some x := by
  induction qs generalizing s with
  | nil =>
    obtain ⟨-, rfl⟩ := Prod.mk.inj h
    exact hx
  | cons r qs ih =>
    obtain ⟨_, s₁, hfirst, hrest⟩ := run_bind_eq_ok.mp h
    obtain ⟨hsteady, hunlinked, k, hk, hkept⟩ := pass_entries hdry (hne r (by simp)) hs hfirst
    have hne' : ∀ r ∈ qs, ((layout.destinationRoot mode.direction).join r).isEmpty = false :=
      fun r hr => hne r (by simp [hr])
    obtain ⟨hsteady', -⟩ := steady_of_passes hdry hne' hunlinked hrest
    -- Both directories are found at the end where they are now.
    have hkl : k ≠ l := by
      rintro rfl
      apply hapart r (by simp)
      rw [(hk.steady hsteady').1, (hT.steady (hsteady.trans hsteady')).1]
    apply ih hne' hunlinked hrest (hT.steady hsteady) _ fun r hr => hapart r (by simp [hr])
    apply hkept _ _ hx
    rintro n' heq
    exact hkl (List.append_singleton_inj.mp heq).1.symm

end Passes

end Run

end GuestSync
