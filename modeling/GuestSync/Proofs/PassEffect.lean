/-
# GuestSync.Proofs.PassEffect -- what one pass does

A pass works on the entries of one destination directory. Its two loops are
proved by one rule for loops over entries: each entry is dealt with once, and
what has been done to one is not seen by the others. Put together, a pass that
gets through has made the way to its directory and settled every entry of it, and
it gets through exactly if the subdirectory fits and the tagger is willing. One
that fails has settled some of the entries, or has only made directories.
-/
import GuestSync.Proofs.EntryWork
import GuestSync.Proofs.Journals

namespace GuestSync

namespace Run

open Disk

/-! ## Loops over the entries of a directory -/

/-- The session `s'` has some entries of a directory changed and nothing else. -/
structure Reworked (l : Location) (done : List Name) (g : Name → Option Node → Option Node)
    (s s' : Session) : Prop where
  start : s'.disk.start = s.disk.start
  plain : s'.disk.Plain
  keeps : ∀ m, s.disk.node? m = some .directory → s'.disk.node? m = some .directory
  inside : ∀ n ∈ done, s'.disk.node? (l ++ [n]) = g n (s.disk.node? (l ++ [n]))
  outside : ∀ m, (∀ n ∈ done, m ≠ l ++ [n]) → s'.disk.node? m = s.disk.node? m

section Loop

variable {l : Location} {done : List Name} {g : Name → Option Node → Option Node}
variable {s s' s'' : Session} {n : Name}

theorem Reworked.refl (hd : s.disk.Plain) : Reworked l [] g s s :=
  ⟨rfl, hd, fun _ h => h, by simp, fun _ _ => rfl⟩

theorem Reworked.opens {p : Path} {m : Location} (h : Reworked l done g s s')
    (hp : s.disk.Opens p m) : s'.disk.Opens p m :=
  hp.mono h.start h.keeps

/-- An entry that is not done yet is as it was. -/
theorem Reworked.fresh (h : Reworked l done g s s') (hn : n ∉ done) :
    s'.disk.node? (l ++ [n]) = s.disk.node? (l ++ [n]) := by
  apply h.outside
  intro k hk heq
  obtain ⟨-, rfl⟩ := List.append_singleton_inj.mp heq
  exact hn hk

/-- An entry of any name, if what is not done would stay as it is. -/
theorem Reworked.entry (h : Reworked l done g s s')
    (hsame : n ∉ done → g n (s.disk.node? (l ++ [n])) = s.disk.node? (l ++ [n])) :
    s'.disk.node? (l ++ [n]) = g n (s.disk.node? (l ++ [n])) := by
  by_cases hn : n ∈ done
  · exact h.inside n hn
  · rw [h.fresh hn, hsame hn]

/-- The entries of another directory are as they were. -/
theorem Reworked.elsewhere (h : Reworked l done g s s') {k : Location} (hkl : k ≠ l) (n : Name) :
    s'.disk.node? (k ++ [n]) = s.disk.node? (k ++ [n]) := by
  apply h.outside
  intro _ _ heq
  exact hkl (List.append_singleton_inj.mp heq).1

theorem Reworked.other (h : Reworked l done g s s') {m : Location} (hm : ∀ n, m ≠ l ++ [n]) :
    s'.disk.node? m = s.disk.node? m :=
  h.outside m fun n _ => hm n

/-- Only the disk of a session matters. -/
theorem Reworked.of_disk (h : Reworked l done g s s') (hdisk : s''.disk = s'.disk) :
    Reworked l done g s s'' := by
  refine ⟨?_, ?_, ?_, ?_, ?_⟩ <;> rw [hdisk]
  · exact h.start
  · exact h.plain
  · exact h.keeps
  · exact h.inside
  · exact h.outside

/-- What may be put at an entry: what is there, or nothing or a file in place of
something that is no directory. -/
def Puttable (old new : Option Node) : Prop :=
  new = old ∨ old ≠ some .directory ∧ ∀ y, new = some y → ∃ c t, y = .file c t

/-- What is there may be put back: that is no change of the disk. -/
private theorem changed_kept {m : Location} {x : Option Node} (hd : s.disk.Plain)
    (hsame : x = s.disk.node? m) (hc : s.Changed s' m x) : s'.disk.node? = s.disk.node? ∧
      s'.disk.Plain := by
  have hview : s'.disk.node? = s.disk.node? := by
    rw [hc.view, hsame, Function.update_eq_self]
  refine ⟨hview, ?_, ?_, ?_⟩
  · intro m k hm
    rw [hview] at hm ⊢
    exact hd.wellFormed m k hm
  · intro m x hm
    rw [hview] at hm
    exact hd.kinds m x hm
  · intro m k hm
    rw [hview] at hm
    exact hd.proper m k hm

/-- A change that may be made leaves a plain disk with all its directories. -/
private theorem changed_puttable {x : Option Node} (hd : s.disk.Plain)
    (hl : s.disk.node? l = some .directory) (hproper : Name.Proper n)
    (hput : Puttable (s.disk.node? (l ++ [n])) x) (hc : s.Changed s' (l ++ [n]) x) :
    s'.disk.Plain ∧
      ∀ m, s.disk.node? m = some .directory → s'.disk.node? m = some .directory := by
  rcases hput with hsame | ⟨hfree, hfile⟩
  · obtain ⟨hview, hplain⟩ := changed_kept hd hsame hc
    refine ⟨hplain, ?_⟩
    intro m hm
    rw [hview, hm]
  · exact ⟨hc.plain hd hl hproper hfree hfile, hc.keeps hfree⟩

/-- One entry more. -/
theorem Reworked.snoc (h : Reworked l done g s s') (hn : n ∉ done) (hproper : Name.Proper n)
    (hl : s.disk.node? l = some .directory)
    (hput : Puttable (s.disk.node? (l ++ [n])) (g n (s.disk.node? (l ++ [n]))))
    (hc : s'.Changed s'' (l ++ [n]) (g n (s.disk.node? (l ++ [n])))) :
    Reworked l (done ++ [n]) g s s'' := by
  have hview : ∀ m, m ≠ l ++ [n] → s''.disk.node? m = s'.disk.node? m := by
    intro m hm
    exact hc.node_of_ne hm
  have hput' : Puttable (s'.disk.node? (l ++ [n])) (g n (s.disk.node? (l ++ [n]))) := by
    rwa [h.fresh hn]
  obtain ⟨hplain, hkeeps⟩ := changed_puttable h.plain (h.keeps l hl) hproper hput' hc
  refine ⟨hc.start.trans h.start, hplain, ?_, ?_, ?_⟩
  · intro m hm
    exact hkeeps m (h.keeps m hm)
  · intro k hk
    by_cases heq : k = n
    · rw [heq, hc.node]
    · have hk' : k ∈ done := by simpa [heq] using hk
      have hne : l ++ [k] ≠ l ++ [n] := by simpa using heq
      rw [hview _ hne, h.inside k hk']
  · intro m hm
    rw [hview m (hm n (by simp))]
    apply h.outside
    intro k hk
    exact hm k (by simp [hk])

/-- **Loops over entries.** Each step deals with one entry, given what stood there
at the beginning, and then `K` holds of it and goes on to hold. Or the step ends in a
failure `F`: because the entry is not `P`, or for a reason `W` that lies in this entry
alone, and then it may have been dealt with already. -/
theorem ends_entries (P : Name → Option Node → Prop) (K : Name → Session → Prop)
    (W : Name → Failure → Prop) (F : Failure → Prop) (g : Name → Option Node → Option Node) (count : Name → Option Node → Tally → Tally)
    (f : Name → Run Unit) {ns : List Name}
    (hnodup : ns.Nodup) (hproper : ∀ n ∈ ns, Name.Proper n) (hd : s.disk.Plain)
    (hl : s.disk.node? l = some .directory)
    (hput : ∀ n old, P n old → Puttable old (g n old))
    (hkeep : ∀ k n s' r s'', (f n).run s' = (r, s'') → K k s' → K k s'')
    (step : ∀ done n s', n ∈ ns → Reworked l done g s s' →
      s'.disk.node? (l ++ [n]) = s.disk.node? (l ++ [n]) →
      Ends (f n) s'
        (fun _ s'' => P n (s.disk.node? (l ++ [n])) ∧
          s''.tally = count n (s.disk.node? (l ++ [n])) s'.tally ∧ K n s'' ∧
          s'.Changed s'' (l ++ [n]) (g n (s.disk.node? (l ++ [n]))))
        (fun e s'' => F e ∧
          (¬ P n (s.disk.node? (l ++ [n])) ∧ s''.disk = s'.disk ∨
          W n e ∧ P n (s.disk.node? (l ++ [n])) ∧
            s'.Changed s'' (l ++ [n]) (g n (s.disk.node? (l ++ [n])))))) :
    Ends (ns.forM f) s
      (fun _ s' => (∀ n ∈ ns, P n (s.disk.node? (l ++ [n]))) ∧
        s'.tally = ns.foldl (fun t n => count n (s.disk.node? (l ++ [n])) t) s.tally ∧
        (∀ n ∈ ns, K n s') ∧ Reworked l ns g s s')
      (fun e s' => F e ∧
        ((∃ n ∈ ns, ¬ P n (s.disk.node? (l ++ [n]))) ∨ ∃ n ∈ ns, W n e) ∧
        ∃ done, (∀ n ∈ done, P n (s.disk.node? (l ++ [n]))) ∧ (∀ n ∈ done, K n s' ∨ W n e) ∧
          Reworked l done g s s') := by
  refine Ends.forM ns
    (I := fun done s' => (∀ n ∈ done, P n (s.disk.node? (l ++ [n]))) ∧
      s'.tally = done.foldl (fun t n => count n (s.disk.node? (l ++ [n])) t) s.tally ∧
      (∀ n ∈ done, K n s') ∧ Reworked l done g s s')
    ⟨by simp, rfl, by simp, Reworked.refl hd⟩ ?_
  rintro done n rest s' rfl ⟨hP, htally, hK, hre⟩
  -- No name is listed twice, so the entry is as it was when the loop began.
  have hfresh : n ∉ done := by
    intro hn
    exact List.disjoint_of_nodup_append hnodup hn (by simp)
  have hP' : P n (s.disk.node? (l ++ [n])) → ∀ k ∈ done ++ [n], P k (s.disk.node? (l ++ [k])) := by
    intro hn k hk
    rcases List.mem_append.mp hk with hk | hk
    · exact hP k hk
    · rwa [List.mem_singleton.mp hk]
  have hsnoc : ∀ {s''}, P n (s.disk.node? (l ++ [n])) →
      s'.Changed s'' (l ++ [n]) (g n (s.disk.node? (l ++ [n]))) →
        Reworked l (done ++ [n]) g s s'' := by
    intro s'' hn hc
    exact hre.snoc hfresh (hproper n (by simp)) hl (hput n _ hn) hc
  apply (step done n s' (by simp) hre (hre.fresh hfresh)).with_run.mono
  · rintro _ s'' ⟨⟨hn, hcount, hKn, hc⟩, hrun⟩
    refine ⟨hP' hn, by rw [hcount, htally, List.foldl_append]; rfl, ?_, hsnoc hn hc⟩
    intro k hk
    rcases List.mem_append.mp hk with hk | hk
    · exact hkeep k n s' _ s'' hrun (hK k hk)
    · rwa [List.mem_singleton.mp hk]
  · rintro e s'' ⟨⟨hfailure, hwhy⟩, hrun⟩
    have hK' : ∀ k ∈ done, K k s'' := by
      intro k hk
      exact hkeep k n s' _ s'' hrun (hK k hk)
    rcases hwhy with ⟨hn, hdisk⟩ | ⟨hw, hn, hc⟩
    · exact ⟨hfailure, .inl ⟨n, by simp, hn⟩, done, hP, fun k hk => .inl (hK' k hk),
        hre.of_disk hdisk⟩
    · refine ⟨hfailure, .inr ⟨n, by simp, hw⟩, done ++ [n], hP' hn, ?_, hsnoc hn hc⟩
      intro k hk
      rcases List.mem_append.mp hk with hk | hk
      · exact .inl (hK' k hk)
      · exact .inr (List.mem_singleton.mp hk ▸ hw)

end Loop

/-! ## The two loops of a pass -/

section Loops

variable {mode : Mode} {rules : RuleTable} {subdir S T : Path} {k l : Location} {s : Session}

theorem puttable_settled {n : Name} {source old : Option Node}
    (h : mode.Ready rules n source old) : Puttable old (mode.settled rules n source old) := by
  by_cases hold : old = some .directory
  · subst hold
    exact .inl (Mode.settled_directory h)
  · rcases mode.settled_cases rules n source old with hx | hx | ⟨c, t, hx⟩
    · exact .inr ⟨hold, by simp [hx]⟩
    · exact .inl hx
    · exact .inr ⟨hold, by simp [hx]⟩

theorem puttable_placed {n : Name} {source old : Option Node}
    (h : mode.Ready rules n source old) : Puttable old (mode.placed rules n source old) := by
  unfold Mode.placed
  split
  · exact puttable_settled h
  · exact .inl rfl

theorem puttable_cleaned (n : Name) (source old : Option Node) :
    Puttable old (mode.cleaned rules n source old) := by
  unfold Mode.cleaned
  split
  · exact .inl rfl
  · next hno =>
    apply puttable_settled
    apply Mode.ready_of_no_source
    exact .inr (by simpa using hno)

/-- The first loop: every source entry, as it was listed. -/
theorem ends_sourceLoop (hdry : mode.dryRun = false) (hd : s.disk.Plain)
    (hS : s.disk.node? k = some .directory → s.disk.Opens S k) (hT : s.disk.Opens T l) :
    Ends ((Plan.ofSource rules T ((s.disk.children k).map (s.disk.entry S))).actions.forM
        (execute mode subdir)) s
      (fun _ s' =>
        (∀ n ∈ s.disk.children k,
          mode.Ready rules n (s.disk.node? (k ++ [n])) (s.disk.node? (l ++ [n]))) ∧
        s'.tally = (s.disk.children k).foldl (fun t n => mode.countSource rules n
          (s.disk.node? (k ++ [n])) (s.disk.node? (l ++ [n])) t) s.tally ∧
        (∀ n ∈ s.disk.children k, mode.Tagged rules T n (s.disk.node? (k ++ [n])) s') ∧
        Reworked l (s.disk.children k)
          (fun n => mode.placed rules n (s.disk.node? (k ++ [n]))) s s')
      (fun e s' => e.OfEntry S T ∧
        ((∃ n ∈ s.disk.children k,
          ¬ mode.Ready rules n (s.disk.node? (k ++ [n])) (s.disk.node? (l ++ [n]))) ∨
          ∃ n ∈ s.disk.children k, mode.Refused (T.child n) e) ∧
        ∃ done, (∀ n ∈ done,
          mode.Ready rules n (s.disk.node? (k ++ [n])) (s.disk.node? (l ++ [n]))) ∧
          (∀ n ∈ done, mode.Tagged rules T n (s.disk.node? (k ++ [n])) s' ∨
            mode.Refused (T.child n) e) ∧
          Reworked l done (fun n => mode.placed rules n (s.disk.node? (k ++ [n]))) s s') := by
  rw [Plan.ofSource_actions, List.map_map, forM_map]
  refine ends_entries (fun n old => mode.Ready rules n (s.disk.node? (k ++ [n])) old)
    (fun n s' => mode.Tagged rules T n (s.disk.node? (k ++ [n])) s')
    (fun n e => mode.Refused (T.child n) e) (·.OfEntry S T)
    (fun n old => mode.placed rules n (s.disk.node? (k ++ [n])) old)
    (fun n old t => mode.countSource rules n (s.disk.node? (k ++ [n])) old t) _
    (nodup_children s.disk k) (fun n hn => hd.proper_of_mem_children hn) hd hT.directory
    (fun n old => puttable_placed)
    (fun _ _ _ _ _ hrun h => h.grows fun _ => (journaled_execute mode subdir _).grows hrun) ?_
  intro done n s' hn hre hsame
  have hdir : s.disk.node? k = some .directory :=
    hd.directory_of_mem_children hn
  have hsource : s'.disk.node? (k ++ [n]) = s.disk.node? (k ++ [n]) := by
    by_cases hkl : k = l
    · rwa [hkl]
    · exact hre.elsewhere hkl n
  have hentry := ends_sourceEntry rules subdir hdry hd (hS hdir) hre.plain
    (hre.opens (hS hdir)) (hre.opens hT) (hd.proper_of_mem_children hn) hsource.symm
  rw [hsame, hsource] at hentry
  exact hentry

theorem run_list_opens (hT : s.disk.Opens T l) :
    (list T).run s = (.ok ((s.disk.children l).map (s.disk.entry T)), s) := by
  rw [run_list, list_of_directoryAt hT.directoryAt]

variable (mode subdir) in
/-- The second loop deletes what is stale. -/
theorem run_cleanUp (hd : s.disk.Plain) (hT : s.disk.Opens T l) {plan : Plan}
    (source : Name → Option Node) (hexpected : rules.Expects plan.expected source) :
    (cleanUp rules mode subdir T plan).run s =
      ((((s.disk.staleNames rules l source).map T.child).map Action.delete).forM
        (execute mode subdir)).run s := by
  have hdeletions : plan.deletions rules ((s.disk.children l).map (s.disk.entry T)) =
      ((s.disk.staleNames rules l source).map T.child).map Action.delete := by
    unfold Plan.deletions staleNames
    rw [List.filterMap_map, List.map_map, ← List.filterMap_eq_map, List.filterMap_filter]
    apply List.filterMap_congr
    intro n hn
    have hstale := isStale_iff hd hT (hd.proper_of_mem_children hn)
      (mem_children_iff.mp hn) (hexpected n)
    simp only [Function.comp_apply, Entry.destinationAction?, hstale, decide_eq_true_eq]
    rfl
  unfold cleanUp
  rw [run_bind_ok (run_list_opens hT), hdeletions]

/-- The second loop: every destination entry, as it was listed after the first. -/
theorem ends_cleanUp (hdry : mode.dryRun = false) (hd : s.disk.Plain) (hT : s.disk.Opens T l)
    {plan : Plan} (source : Name → Option Node)
    (hexpected : rules.Expects plan.expected source) (E : Failure → Session → Prop) :
    Ends (cleanUp rules mode subdir T plan) s
      (fun _ s' => s'.tally = (s.disk.children l).foldl (fun t n => rules.countStale n
          (source n) (s.disk.node? (l ++ [n])) t) s.tally ∧
        Reworked l (s.disk.children l) (fun n => mode.cleaned rules n (source n)) s s') E := by
  unfold cleanUp Plan.deletions
  apply Ends.bind_ok (run_list_opens hT)
  rw [List.filterMap_map, forM_filterMap]
  apply Ends.mono (ends_entries (fun _ _ => True) (fun _ _ => True) (fun _ _ => False)
    (fun _ => False) (fun n old => mode.cleaned rules n (source n) old)
    (fun n old t => rules.countStale n (source n) old t) _ (nodup_children s.disk l)
    (fun n hn => hd.proper_of_mem_children hn) hd hT.directory ?_ (fun _ _ _ _ _ _ h => h) ?_)
  · rintro _ s' ⟨-, htally, -, hre⟩
    exact ⟨htally, hre⟩
  · intro _ _ h
    exact h.1.elim
  · intro n old _
    exact puttable_cleaned n (source n) old
  · intro done n s' hn hre hsame
    have hthere : s.disk.node? (l ++ [n]) ≠ none := mem_children_iff.mp hn
    have hentry := ends_destinationEntry rules subdir hdry hd hT hre.plain (hre.opens hT)
      (hd.proper_of_mem_children hn) hthere hsame.symm (hexpected n)
    rw [hsame] at hentry
    apply Ends.mono (hentry fun _ _ => False)
    · rintro _ s'' ⟨htally, hchanged⟩
      exact ⟨trivial, htally, trivial, hchanged⟩
    · intro _ _ h
      exact h.elim

end Loops

end Run

/-! ## Two sides apart from each other -/

namespace Disk

/-- The disk `e` is plain, starts where `d` does, and has all its directories. -/
structure Kept (d e : Disk) : Prop where
  start : e.start = d.start
  plain : e.Plain
  directories : ∀ m, d.node? m = some .directory → e.node? m = some .directory

/-- Two directories of a plain disk of which neither lies in the other. -/
structure Sides (d : Disk) (S T : Path) (A B : Location) : Prop where
  plain : d.Plain
  source : d.Opens S A
  destination : d.Opens T B
  outside : ¬ A <+: B
  inside : ¬ B <+: A

variable {d e : Disk} {S T : Path} {A B : Location}

theorem Sides.kept (h : d.Sides S T A B) (hk : d.Kept e) : e.Sides S T A B :=
  ⟨hk.plain, h.source.mono hk.start hk.directories, h.destination.mono hk.start hk.directories,
    h.outside, h.inside⟩

theorem Kept.trans {f : Disk} (h : d.Kept e) (h' : e.Kept f) : d.Kept f :=
  ⟨h'.start.trans h.start, h'.plain, fun m hm => h'.directories m (h.directories m hm)⟩

/-- Nothing in the one of two places apart is on the way to anything in the other. -/
theorem not_prefix_of_apart (hAB : ¬ A <+: B) (hBA : ¬ B <+: A) (x y : List Name) :
    ¬ A ++ x <+: B ++ y := by
  intro hp
  rcases List.prefix_or_prefix_of_prefix ((List.prefix_append A x).trans hp)
    (List.prefix_append B y) with hab | hba
  · exact hAB hab
  · exact hBA hba

theorem Sides.not_prefix (h : d.Sides S T A B) (x y : List Name) : ¬ A ++ x <+: B ++ y :=
  not_prefix_of_apart h.outside h.inside x y

/-- The location of an entry tells the names of its subdirectory and its own. -/
theorem entry_inj {x y : List Name} {n k : Name} (h : B ++ x ++ [n] = B ++ y ++ [k]) :
    x = y ∧ n = k := by
  obtain ⟨hdir, hname⟩ := List.append_singleton_inj.mp h
  exact ⟨List.append_cancel_left hdir, hname⟩

theorem Sides.ne (h : d.Sides S T A B) (x y : List Name) : A ++ x ≠ B ++ y :=
  fun heq => h.not_prefix x y (heq ▸ List.prefix_rfl)

/-- What is on the way to something in the destination is not in the source. -/
theorem Sides.not_inside_of_prefix (h : d.Sides S T A B) {m : Location} {y : List Name}
    (hm : m <+: B ++ y) : ¬ A <+: m := by
  intro hA
  apply h.not_prefix [] y
  rw [List.append_nil]
  exact hA.trans hm

/-- Whether a pass over the subdirectory can get through on the disk: the way to
its destination can be made, its source can be listed, and every entry can be
settled. -/
structure Fits (d : Disk) (mode : Mode) (rules : RuleTable) (A B : Location) (q : Path) : Prop where
  free : d.WayFree (B ++ q.names)
  seated : q.endsInHere = true → d.node? (B ++ q.names) = some .directory
  listable : d.Listable A q
  ready : ∀ n, mode.Ready rules n (d.node? (A ++ q.names ++ [n])) (d.node? (B ++ q.names ++ [n]))

end Disk

/-- What a pass that got through has done to the entries of `l`, with the source
directory `k`. -/
structure Mode.Passed (mode : Mode) (rules : RuleTable) (k l : Location) (d e : Disk) : Prop
    extends Disk.Kept d e where
  way : ∀ m, m <+: l → e.node? m = some .directory
  entries : ∀ n, e.node? (l ++ [n]) =
    mode.settled rules n (d.node? (k ++ [n])) (d.node? (l ++ [n]))
  others : ∀ m, ¬ m <+: l → (∀ n, m ≠ l ++ [n]) → e.node? m = d.node? m

/-- What a pass that failed may have done: it has made directories on the way to
`l`, and once `l` is a directory it has settled some of its entries. -/
structure Mode.Aborted (mode : Mode) (rules : RuleTable) (k l : Location) (d e : Disk) : Prop
    extends Disk.Kept d e where
  way : ∀ m, m <+: l → e.node? m = d.node? m ∨ d.node? m = none ∧ e.node? m = some .directory
  entries : ∀ n, e.node? (l ++ [n]) = d.node? (l ++ [n]) ∨
    e.node? l = some .directory ∧
      mode.Ready rules n (d.node? (k ++ [n])) (d.node? (l ++ [n])) ∧
      e.node? (l ++ [n]) = mode.settled rules n (d.node? (k ++ [n])) (d.node? (l ++ [n]))
  others : ∀ m, ¬ m <+: l → (∀ n, m ≠ l ++ [n]) → e.node? m = d.node? m

section Way

variable {mode : Mode} {rules : RuleTable} {k l : Location} {d d₁ e : Disk}

theorem Disk.Grown.entry (h : d.Grown d₁ l) (n : Name) :
    d₁.node? (l ++ [n]) = d.node? (l ++ [n]) :=
  h.other fun hp => by simpa using hp.length_le

/-- A pass into a directory that was there changes entries of it alone. -/
theorem Mode.Passed.cases {k l : Location} (h : mode.Passed rules k l d e) (hd : d.Plain)
    (hl : d.node? l = some .directory) (m : Location) :
    e.node? m = d.node? m ∨ ∃ n, m = l ++ [n] ∧
      e.node? m = mode.settled rules n (d.node? (k ++ [n])) (d.node? m) := by
  by_cases hway : m <+: l
  · exact .inl (by rw [h.way m hway, hd.directory_of_prefix_directory hway hl])
  by_cases hentry : ∃ n, m = l ++ [n]
  · obtain ⟨n, rfl⟩ := hentry
    exact .inr ⟨n, rfl, h.entries n⟩
  · left
    apply h.others m hway
    intro n heq
    exact hentry ⟨n, heq⟩

/-- The way to the destination may have been made before the pass's own work. -/
theorem Mode.Passed.of_grown (h : mode.Passed rules k l d₁ e) (hkept : d.Kept d₁)
    (hgrown : d.Grown d₁ l) (hk : ∀ n, d₁.node? (k ++ [n]) = d.node? (k ++ [n])) :
    mode.Passed rules k l d e := by
  refine ⟨hkept.trans h.toKept, h.way, ?_, ?_⟩
  · intro n
    rw [h.entries, hk, hgrown.entry]
  · intro m hm hn
    rw [h.others m hm hn, hgrown.other hm]

theorem Mode.Aborted.of_grown (h : mode.Aborted rules k l d₁ e) (hkept : d.Kept d₁)
    (hgrown : d.Grown d₁ l) (hfree : d.WayFree l)
    (hk : ∀ n, d₁.node? (k ++ [n]) = d.node? (k ++ [n])) : mode.Aborted rules k l d e := by
  refine ⟨hkept.trans h.toKept, ?_, ?_, ?_⟩
  · intro m hm
    have hdir : e.node? m = some .directory := h.directories m (hgrown.way hm)
    rcases hfree m hm with hnone | hold
    · exact .inr ⟨hnone, hdir⟩
    · exact .inl (hdir.trans hold.symm)
  · intro n
    have hentry := h.entries n
    rwa [hk, hgrown.entry] at hentry
  · intro m hm hn
    rw [h.others m hm hn, hgrown.other hm]

/-- A pass that got through is one that stopped at its very end. -/
theorem Mode.Passed.aborted {A B : Location} {q : Path}
    (h : mode.Passed rules (A ++ q.names) (B ++ q.names) d e) (hfits : d.Fits mode rules A B q) :
    mode.Aborted rules (A ++ q.names) (B ++ q.names) d e := by
  refine ⟨h.toKept, ?_, ?_, h.others⟩
  · intro m hm
    rcases hfits.free m hm with hnone | hdir
    · exact .inr ⟨hnone, h.way m hm⟩
    · exact .inl (by rw [h.way m hm, hdir])
  · intro n
    exact .inr ⟨h.way _ List.prefix_rfl, hfits.ready n, h.entries n⟩

/-- Making the way to a destination does not change whether the subdirectory
fits. -/
theorem Disk.Sides.fits_iff {S T : Path} {A B : Location} {q : Path} (h : d.Sides S T A B)
    (hgrown : d.Grown d₁ (B ++ q.names)) (hfree : d.WayFree (B ++ q.names))
    (hseated : q.endsInHere = true → d.node? (B ++ q.names) = some .directory) :
    d₁.Fits mode rules A B q ↔ d.Fits mode rules A B q := by
  have hsource : ∀ x, d₁.node? (A ++ x) = d.node? (A ++ x) := by
    intro x
    exact hgrown.other (h.not_prefix x q.names)
  have hlistable : d₁.Listable A q ↔ d.Listable A q := by
    unfold Disk.Listable
    rw [hsource]
  have hready : ∀ n, mode.Ready rules n (d₁.node? (A ++ q.names ++ [n]))
      (d₁.node? (B ++ q.names ++ [n])) ↔ mode.Ready rules n (d.node? (A ++ q.names ++ [n]))
      (d.node? (B ++ q.names ++ [n])) := by
    intro n
    rw [List.append_assoc A, hsource, hgrown.entry]
  constructor
  · intro hfits
    exact ⟨hfree, hseated, hlistable.mp hfits.listable, fun n => (hready n).mp (hfits.ready n)⟩
  · intro hfits
    refine ⟨?_, ?_, hlistable.mpr hfits.listable, fun n => (hready n).mpr (hfits.ready n)⟩
    · intro m hm
      exact .inr (hgrown.way hm)
    · intro _
      exact hgrown.way List.prefix_rfl

end Way

/-- The counts after a pass. `ns` are the names in the source directory and `ms`
those in the destination directory. -/
def Mode.countPass (mode : Mode) (rules : RuleTable) (k l : Location) (d : Disk)
    (ns ms : List Name) (t : Tally) : Tally :=
  ms.foldl (fun t n => rules.countStale n (d.node? (k ++ [n])) (d.node? (l ++ [n])) t)
    (ns.foldl (fun t n => mode.countSource rules n (d.node? (k ++ [n])) (d.node? (l ++ [n])) t) t)

/-- What source entries do not change and where no entry is stale a pass keeps. -/
theorem Mode.countPass_keeps {α : Type} (f : Tally → α) {mode : Mode} {rules : RuleTable}
    {k l : Location} {d : Disk} {t : Tally}
    (hsource : ∀ n u, f (mode.countSource rules n (d.node? (k ++ [n])) (d.node? (l ++ [n])) u) = f u)
    (hstale : ∀ n, ¬ rules.Stale n (d.node? (k ++ [n])) (d.node? (l ++ [n]))) (ns ms : List Name) :
    f (mode.countPass rules k l d ns ms t) = f t := by
  unfold Mode.countPass
  apply List.foldlRecOn (motive := fun u : Tally => f u = f t) ms
  · apply List.foldlRecOn (motive := fun u : Tally => f u = f t) ns
    · rfl
    · intro u hu n _
      rw [hsource, hu]
  · intro u hu n _
    rw [RuleTable.countStale, if_neg (hstale n), hu]

namespace Run

open Disk

/-! ## The work of a pass -/

section Work

variable {mode : Mode} {rules : RuleTable} {subdir S T : Path} {k l : Location} {s : Session}

variable (rules T) in
/-- A name is expected in the destination exactly if the source has a file of it. -/
theorem expects_ofSource (hd : s.disk.Plain)
    (hS : s.disk.node? k = some .directory → s.disk.Opens S k) :
    rules.Expects (Plan.ofSource rules T ((s.disk.children k).map (s.disk.entry S))).expected
      fun n => s.disk.node? (k ++ [n]) := by
  intro n name hname hrule
  rw [Plan.mem_ofSource_expected]
  simp only [List.mem_map, exists_exists_and_eq_and]
  constructor
  · rintro ⟨m, hm, hexp⟩
    have hSm := hS (hd.directory_of_mem_children hm)
    rw [expectedName?_eq_some hd hSm (hd.proper_of_mem_children hm)] at hexp
    rw [Utf8.toString?_inj hname hexp.1]
    exact hexp.2.2
  · intro hsource
    have hn := mem_children_of_content hsource
    refine ⟨n, hn, ?_⟩
    have hSn := hS (hd.directory_of_mem_children hn)
    rw [expectedName?_eq_some hd hSn (hd.proper_of_mem_children hn)]
    exact ⟨hname, hrule, hsource⟩

/-- What is stale has no source file, so the first half of a pass leaves it alone. -/
theorem stale_placed (n : Name) (source old : Option Node) :
    rules.Stale n source (mode.placed rules n source old) ↔ rules.Stale n source old := by
  unfold RuleTable.Stale
  apply and_congr_right
  intro _
  apply and_congr_right
  intro hsource
  rw [Mode.placed, if_neg (by simp [hsource])]

theorem countStale_placed (n : Name) (source old : Option Node) (t : Tally) :
    rules.countStale n source (mode.placed rules n source old) t =
      rules.countStale n source old t := by
  simp only [RuleTable.countStale, stale_placed]

/-- Names that are not in the source directory have no file there. -/
theorem ready_of_children (h : ∀ n ∈ s.disk.children k,
    mode.Ready rules n (s.disk.node? (k ++ [n])) (s.disk.node? (l ++ [n]))) (n : Name) :
    mode.Ready rules n (s.disk.node? (k ++ [n])) (s.disk.node? (l ++ [n])) := by
  by_cases hn : n ∈ s.disk.children k
  · exact h n hn
  · have hnone := not_mem_children_iff.mp hn
    apply Mode.ready_of_no_source
    exact .inr (by rw [hnone]; rfl)

/-- They have no tag to be given. -/
theorem tagged_of_children {s' : Session} (h : ∀ n ∈ s.disk.children k,
    mode.Tagged rules T n (s.disk.node? (k ++ [n])) s') (n : Name) :
    mode.Tagged rules T n (s.disk.node? (k ++ [n])) s' := by
  by_cases hn : n ∈ s.disk.children k
  · exact h n hn
  · have hnone := not_mem_children_iff.mp hn
    apply Mode.tagged_of_no_source
    exact .inr (by rw [hnone]; rfl)

/-- A first loop that failed has settled some entries. -/
theorem Reworked.aborted {s' : Session} {done : List Name} (hd : s.disk.Plain)
    (hl : s.disk.node? l = some .directory)
    (hready : ∀ n ∈ done, mode.Ready rules n (s.disk.node? (k ++ [n])) (s.disk.node? (l ++ [n])))
    (hre : Reworked l done (fun n => mode.placed rules n (s.disk.node? (k ++ [n]))) s s') :
    mode.Aborted rules k l s.disk s'.disk := by
  refine ⟨⟨hre.start, hre.plain, hre.keeps⟩, ?_, ?_, ?_⟩
  · intro m hm
    have hway := hd.directory_of_prefix_directory hm hl
    exact .inl (by rw [hre.keeps m hway, hway])
  · intro n
    by_cases hn : n ∈ done
    · cases hsource : contentOf (s.disk.node? (k ++ [n])) with
      | some content =>
        refine .inr ⟨hre.keeps l hl, hready n hn, ?_⟩
        rw [hre.inside n hn, Mode.placed_of_content hsource]
      | none =>
        left
        rw [hre.inside n hn, Mode.placed_of_no_source (.inr hsource)]
    · exact .inl (hre.fresh hn)
  · intro m _ hm
    exact hre.other hm

/-- After the first loop every entry is placed, also those that no source entry
has the name of. -/
theorem Reworked.placed {s' : Session} (hre : Reworked l (s.disk.children k)
      (fun n => mode.placed rules n (s.disk.node? (k ++ [n]))) s s') (n : Name) :
    s'.disk.node? (l ++ [n]) =
      mode.placed rules n (s.disk.node? (k ++ [n])) (s.disk.node? (l ++ [n])) := by
  apply hre.entry
  intro hn
  have hnone := not_mem_children_iff.mp hn
  apply Mode.placed_of_no_source
  exact .inr (by rw [hnone]; rfl)

/-- After the second loop every entry is settled. -/
theorem Reworked.passed {s₁ s₂ : Session} (hd : s.disk.Plain)
    (hl : s.disk.node? l = some .directory)
    (hre : Reworked l (s.disk.children k)
      (fun n => mode.placed rules n (s.disk.node? (k ++ [n]))) s s₁)
    (hre₂ : Reworked l (s₁.disk.children l)
      (fun n => mode.cleaned rules n (s.disk.node? (k ++ [n]))) s₁ s₂) :
    mode.Passed rules k l s.disk s₂.disk := by
  have hkeeps : ∀ m, s.disk.node? m = some .directory → s₂.disk.node? m = some .directory := by
    intro m hm
    exact hre₂.keeps m (hre.keeps m hm)
  refine ⟨⟨hre₂.start.trans hre.start, hre₂.plain, hkeeps⟩, ?_, ?_, ?_⟩
  · intro m hm
    exact hkeeps m (hd.directory_of_prefix_directory hm hl)
  · intro n
    rw [hre₂.entry, hre.placed, Mode.cleaned_placed]
    -- A name that the second loop did not see has nothing to clean up.
    intro hn
    have hnone := not_mem_children_iff.mp hn
    rw [hnone, Mode.cleaned_none]
  · intro m _ hm
    exact (hre₂.other hm).trans (hre.other hm)

variable (rules subdir) in
/-- Both loops, from a session in which the destination directory is there. -/
theorem ends_loops (hdry : mode.dryRun = false) (hd : s.disk.Plain)
    (hS : s.disk.node? k = some .directory → s.disk.Opens S k) (hT : s.disk.Opens T l) :
    Ends (do
        (Plan.ofSource rules T ((s.disk.children k).map (s.disk.entry S))).actions.forM
          (execute mode subdir)
        cleanUp rules mode subdir T
          (Plan.ofSource rules T ((s.disk.children k).map (s.disk.entry S)))) s
      (fun _ s' =>
        (∀ n, mode.Ready rules n (s.disk.node? (k ++ [n])) (s.disk.node? (l ++ [n]))) ∧
        (∃ ms, s'.tally = mode.countPass rules k l s.disk (s.disk.children k) ms s.tally) ∧
        (∀ n, mode.Tagged rules T n (s.disk.node? (k ++ [n])) s') ∧
        mode.Passed rules k l s.disk s'.disk)
      (fun e s' => e.OfEntry S T ∧
        ((¬ ∀ n, mode.Ready rules n (s.disk.node? (k ++ [n])) (s.disk.node? (l ++ [n]))) ∨
          ¬ mode.tagger.Willing) ∧
        (∀ n, s'.disk.node? (l ++ [n]) = s.disk.node? (l ++ [n]) ∨
          mode.Tagged rules T n (s.disk.node? (k ++ [n])) s' ∨ mode.Refused (T.child n) e) ∧
        mode.Aborted rules k l s.disk s'.disk) := by
  apply ((ends_sourceLoop hdry hd hS hT).mono (fun _ _ h => h) ?_).bind ?_
  · rintro e s' ⟨hfailure, hwhy, done, hready, htagged, hre⟩
    refine ⟨hfailure, hwhy.imp ?_ ?_, ?_, hre.aborted hd hT.directory hready⟩
    · rintro ⟨n, -, hn⟩ hall
      exact hn (hall n)
    · rintro ⟨n, -, hn⟩
      exact hn.1
    · intro n
      by_cases hn : n ∈ done
      · exact .inr (htagged n hn)
      · exact .inl (hre.fresh hn)
  · rintro _ s₁ ⟨hready, htally, htagged, hre⟩
    apply Ends.mono (ends_cleanUp hdry hre.plain (hre.opens hT)
      (fun n => s.disk.node? (k ++ [n])) (expects_ofSource rules T hd hS) fun _ _ => False).with_run
    · rintro _ s₂ ⟨⟨htally₂, hre₂⟩, hrun⟩
      refine ⟨ready_of_children hready, ⟨s₁.disk.children l, ?_⟩, ?_,
        hre.passed hd hT.directory hre₂⟩
      · simp only [htally₂, htally, hre.placed, countStale_placed, Mode.countPass]
      · intro n
        apply (tagged_of_children htagged n).grows
        intro e he
        exact (journaled_cleanUp mode subdir rules T _).grows hrun he
    · intro _ _ h
      exact h.1.elim

end Work

/-! ## The whole pass -/

section Pass

variable {layout : Layout} {mode : Mode} {A B : Location} {q : Path} {s : Session}

/-- Directories that were made on the way to `l` alone leave an aborted pass. -/
theorem aborted_of_grown {rules : RuleTable} {d e : Disk} {k l m : Location} (hd : d.Kept e)
    (hfree : d.WayFree m) (hm : m <+: l) (h : d.Grown e m) : mode.Aborted rules k l d e := by
  have hother : ∀ {x}, ¬ x <+: l → e.node? x = d.node? x := by
    intro x hx
    exact h.other fun hxm => hx (hxm.trans hm)
  refine ⟨hd, ?_, ?_, ?_⟩
  · intro x hx
    by_cases hxm : x <+: m
    · rcases hfree x hxm with hnone | hdir
      · exact .inr ⟨hnone, h.way hxm⟩
      · exact .inl (by rw [h.way hxm, hdir])
    · exact .inl (h.other hxm)
  · intro n
    left
    apply hother
    intro hp
    simpa using hp.length_le
  · intro x hx _
    exact hother hx

theorem Mode.Aborted.refl {rules : RuleTable} {d : Disk} {k l : Location} (hd : d.Plain) :
    mode.Aborted rules k l d d :=
  ⟨⟨rfl, hd, fun _ hm => hm⟩, fun _ _ => .inl rfl, fun _ => .inl rfl, fun _ _ _ => rfl⟩

variable (mode) in
/-- Making the destination directory of a pass. -/
theorem ends_makeWay (rules : RuleTable) {S T : Path} (h : s.disk.Sides S T A B) (hq : q.Inner) :
    Ends (makeDirectories (T.join q)) s
      (fun _ s' => (s.disk.WayFree (B ++ q.names) ∧
          (q.endsInHere = true → s.disk.node? (B ++ q.names) = some .directory)) ∧
        s'.tally = s.tally ∧ s.disk.Kept s'.disk ∧ s.disk.Grown s'.disk (B ++ q.names))
      (fun _ s' => ¬ (s.disk.WayFree (B ++ q.names) ∧
          (q.endsInHere = true → s.disk.node? (B ++ q.names) = some .directory)) ∧
        mode.Aborted rules (A ++ q.names) (B ++ q.names) s.disk s'.disk) := by
  have hmaking := making h.plain h.destination hq
  have hrun := run_makeDirectories s (T.join q)
  have hproper : ∀ n ∈ q.names, Name.Proper n := fun n hn => Path.proper_of_mem_names hn
  have hkept : ∀ {ms : List Name} {e : Disk}, (∀ n ∈ ms, Name.Proper n) →
      s.disk.Grown e (B ++ ms) → s.disk.Kept e := fun hms hg =>
    ⟨hg.start, hg.plain h.plain h.destination.directory hms, hg.keeps⟩
  generalize s.disk.makeDirectories (T.join q) = made at hmaking hrun
  obtain ⟨e, answer⟩ := made
  dsimp only at hmaking hrun
  cases hmaking with
  | made free seated grown =>
    exact Ends.of_run_ok hrun ⟨⟨free, seated⟩, rfl, hkept hproper grown, grown⟩
  | obstructed notFree =>
    exact Ends.of_run_error hrun ⟨fun hc => notFree hc.1, Mode.Aborted.refl h.plain⟩
  | unseated free here ms n names missing grown =>
    have hms : ms <+: q.names := names ▸ List.prefix_append ms [n]
    have hway : B ++ ms <+: B ++ q.names := (List.prefix_append_right_inj B).mpr hms
    have hkept₁ := hkept (fun m hm => hproper m (hms.subset hm)) grown
    refine Ends.of_run_error hrun ⟨?_, aborted_of_grown hkept₁ (free.mono hway) hway grown⟩
    intro hc
    rw [hc.2 here] at missing
    simp at missing

variable (mode) in
/-- The rest of a pass, from a session in which its destination directory is
there. -/
theorem ends_work (rules : RuleTable) {S T : Path} (hdry : mode.dryRun = false)
    (h : s.disk.Sides S T A B) (hq : q.Inner)
    (hway : s.disk.node? (B ++ q.names) = some .directory) :
    Ends (do
        let entries ← list (S.join q)
        (Plan.ofSource rules (T.join q) entries).actions.forM (execute mode q)
        cleanUp rules mode q (T.join q) (Plan.ofSource rules (T.join q) entries)) s
      (fun _ s' => s.disk.Fits mode rules A B q ∧
        (∃ ms, s'.tally = mode.countPass rules (A ++ q.names) (B ++ q.names) s.disk
          (s.disk.children (A ++ q.names)) ms s.tally) ∧
        mode.Passed rules (A ++ q.names) (B ++ q.names) s.disk s'.disk)
      (fun _ s' => (¬ s.disk.Fits mode rules A B q ∨ ¬ mode.tagger.Willing) ∧
        mode.Aborted rules (A ++ q.names) (B ++ q.names) s.disk s'.disk) := by
  have hrun := run_list s (S.join q)
  by_cases hlist : s.disk.Listable A q
  · rw [list_join h.plain h.source hq hlist] at hrun
    have hloops := ends_loops rules q hdry h.plain (h.source.join h.plain hq)
      (h.destination.join h.plain hq hway)
    refine Ends.bind_ok hrun (hloops.mono ?_ ?_)
    · rintro _ s' ⟨hready, hcount, -, hpassed⟩
      refine ⟨⟨?_, fun _ => hway, hlist, hready⟩, hcount, hpassed⟩
      intro m hm
      exact .inr (h.plain.directory_of_prefix_directory hm hway)
    · rintro _ s' ⟨-, hwhy, -, haborted⟩
      refine ⟨hwhy.imp_left ?_, haborted⟩
      intro hno hfits
      exact hno hfits.ready
  · obtain ⟨e, he⟩ := list_join_error h.plain h.source hq hlist
    rw [he] at hrun
    refine Ends.bind_error hrun ⟨.inl ?_, Mode.Aborted.refl h.plain⟩
    intro hfits
    exact hlist hfits.listable

/-- **One pass.** It gets through only if the subdirectory fits, and then the way
to its destination is there and every entry settled. It fails only if the
subdirectory does not fit or the tagger is not willing, and then it was aborted. -/
theorem ends_pass (hdry : mode.dryRun = false)
    (h : s.disk.Sides (layout.sourceRoot mode.direction) (layout.destinationRoot mode.direction)
      A B) (hq : q.Inner) :
    Ends (pass layout mode q) s
      (fun _ s' => s.disk.Fits mode layout.rules A B q ∧
        (∃ ms, s'.tally = mode.countPass layout.rules (A ++ q.names) (B ++ q.names) s.disk
          (s.disk.children (A ++ q.names)) ms s.tally) ∧
        mode.Passed layout.rules (A ++ q.names) (B ++ q.names) s.disk s'.disk)
      (fun _ s' => (¬ s.disk.Fits mode layout.rules A B q ∨ ¬ mode.tagger.Willing) ∧
        mode.Aborted layout.rules (A ++ q.names) (B ++ q.names) s.disk s'.disk) := by
  unfold pass
  simp only [hdry, Bool.false_and, Bool.false_eq_true, if_false, get_seq]
  apply ((ends_makeWay mode layout.rules h hq).mono (fun _ _ h => h) ?_).bind ?_
  · rintro _ s' ⟨hno, haborted⟩
    refine ⟨.inl ?_, haborted⟩
    intro hfits
    exact hno ⟨hfits.free, hfits.seated⟩
  rintro _ s₁ ⟨⟨hfree, hseated⟩, htally, hkept, hgrown⟩
  -- What the rest of the pass reads is on the disk of `s` as it is on that of `s₁`.
  have hk : ∀ n, s₁.disk.node? (A ++ q.names ++ [n]) = s.disk.node? (A ++ q.names ++ [n]) := by
    intro n
    rw [List.append_assoc]
    exact hgrown.other (h.not_prefix _ q.names)
  have hchildren : s₁.disk.children (A ++ q.names) = s.disk.children (A ++ q.names) := by
    apply children_congr
    intro n
    rw [hk]
  have hfits : s₁.disk.Fits mode layout.rules A B q ↔ s.disk.Fits mode layout.rules A B q :=
    h.fits_iff hgrown hfree hseated
  apply (ends_work mode layout.rules hdry (h.kept hkept) hq (hgrown.way List.prefix_rfl)).mono
  · rintro _ s₂ ⟨hf, ⟨ms, hcount⟩, hpassed⟩
    refine ⟨hfits.mp hf, ⟨ms, ?_⟩, hpassed.of_grown hkept hgrown hk⟩
    rw [hcount, hchildren, htally]
    simp only [Mode.countPass, hk, hgrown.entry]
  · rintro _ s₂ ⟨hwhy, haborted⟩
    rw [hfits] at hwhy
    exact ⟨hwhy, haborted.of_grown hkept hgrown hfree hk⟩

end Pass

end Run

end GuestSync
