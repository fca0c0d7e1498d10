/-
# GuestSync.Proofs.Balance -- two sides that hold the same files

The entries of the two sides are paired by a relation between contents: where one
side has a file under a recognized name the other has one too, and their contents
are related. A relation that converting preserves is kept by every pass, so a run
between paired sides gets through and deletes nothing. If the contents convert
into each other then it converts nothing either, and so says a dry run.
-/
import GuestSync.Proofs.SyncEffect
import GuestSync.Proofs.DryRun
import GuestSync.Proofs.TextRoundTrip

namespace GuestSync

open Disk

/-! ## Paired sides -/

/-- Converting in a direction leads from related contents to related contents. -/
def Lasting (direction : Direction) (R : FileKind → Bytes → Bytes → Prop) : Prop :=
  ∀ kind a b, R kind a b → ∃ c, convert kind direction a = .ok c ∧ R kind a c

theorem Twins.lasting (direction : Direction) : Lasting direction (Twins direction) :=
  fun _ _ b h => ⟨b, h.there, h⟩

/-- If there is a rule for the name then both entries are files with related
contents, or neither is a file. -/
def RuleTable.Pairs (rules : RuleTable) (R : FileKind → Bytes → Bytes → Prop) (n : Name)
    (x y : Option Node) : Prop :=
  ∀ rule, rules.forEntry? n = some rule →
    (∃ a b, contentOf x = some a ∧ contentOf y = some b ∧ R rule.kind a b) ∨
      contentOf x = none ∧ contentOf y = none

/-- The two sides have the directories of all subdirectories, and in these their
recognized files are paired by `R`. -/
structure Disk.Paired (d : Disk) (R : FileKind → Bytes → Bytes → Prop) (rules : RuleTable)
    (A B : Location) (qs : List Path) : Prop where
  sources : ∀ q ∈ qs, d.node? (A ++ q.names) = some .directory
  destinations : ∀ q ∈ qs, d.node? (B ++ q.names) = some .directory
  files : ∀ q ∈ qs, ∀ n,
    rules.Pairs R n (d.node? (A ++ q.names ++ [n])) (d.node? (B ++ q.names ++ [n]))

/-- The disks have the same directories and the same contents of files. -/
def Disk.Alike (d e : Disk) : Prop :=
  ∀ m, (e.node? m = some .directory ↔ d.node? m = some .directory) ∧
    contentOf (e.node? m) = contentOf (d.node? m)

theorem Disk.Alike.refl (d : Disk) : d.Alike d := fun _ => ⟨.rfl, rfl⟩

theorem Disk.Alike.trans {d e f : Disk} (h : d.Alike e) (h' : e.Alike f) : d.Alike f := by
  intro m
  obtain ⟨hdir, hcontent⟩ := h m
  obtain ⟨hdir', hcontent'⟩ := h' m
  exact ⟨hdir'.trans hdir, hcontent'.trans hcontent⟩

/-! ## One entry -/

namespace RuleTable.Pairs

variable {R : FileKind → Bytes → Bytes → Prop} {mode : Mode} {rules : RuleTable} {n : Name}
variable {x y : Option Node}

theorem symm (h : rules.Pairs R n x y) : rules.Pairs (fun kind a b => R kind b a) n y x := by
  intro rule hrule
  rcases h rule hrule with ⟨a, b, ha, hb, hr⟩ | ⟨ha, hb⟩
  · exact .inl ⟨b, a, hb, ha, hr⟩
  · exact .inr ⟨hb, ha⟩

theorem mono {R' : FileKind → Bytes → Bytes → Prop} (h : rules.Pairs R n x y)
    (hR : ∀ kind a b, R kind a b → R' kind a b) : rules.Pairs R' n x y := by
  intro rule hrule
  rcases h rule hrule with ⟨a, b, ha, hb, hr⟩ | hnone
  · exact .inl ⟨a, b, ha, hb, hR _ a b hr⟩
  · exact .inr hnone

theorem of_content (h : rules.Pairs R n x y) {rule : Rule} (hrule : rules.forEntry? n = some rule)
    {a : Bytes} (hx : contentOf x = some a) : ∃ b, contentOf y = some b ∧ R rule.kind a b := by
  rcases h rule hrule with ⟨a', b, ha, hb, hr⟩ | ⟨ha, -⟩
  · obtain rfl : a' = a := by simpa [ha] using hx
    exact ⟨b, hb, hr⟩
  · simp [ha] at hx

theorem no_content_iff (h : rules.Pairs R n x y) {rule : Rule}
    (hrule : rules.forEntry? n = some rule) : contentOf x = none ↔ contentOf y = none := by
  rcases h rule hrule with ⟨a, b, ha, hb, -⟩ | ⟨ha, hb⟩
  · simp [ha, hb]
  · simp [ha, hb]

theorem ready (h : rules.Pairs R n x y) (hR : Lasting mode.direction R) : mode.Ready rules n x y := by
  intro rule content hrule hsource
  obtain ⟨b, hb, hr⟩ := h.of_content hrule hsource
  obtain ⟨c, hc, -⟩ := hR _ _ _ hr
  refine ⟨⟨c, hc⟩, ?_⟩
  rintro rfl
  simp [contentOf] at hb

/-- An entry is still paired after it was settled. -/
theorem settled (h : rules.Pairs R n x y) (hR : Lasting mode.direction R) :
    rules.Pairs R n x (mode.settled rules n x y) := by
  intro rule hrule
  rcases h rule hrule with ⟨a, b, ha, hb, hr⟩ | ⟨ha, hb⟩
  · obtain ⟨c, hc, hr'⟩ := hR _ _ _ hr
    rw [Mode.settled_of_output hrule ha hc]
    exact .inl ⟨a, c, ha, rfl, hr'⟩
  · rw [Mode.settled_of_no_content hrule ha, contentOf_removed]
    exact .inr ⟨ha, rfl⟩

theorem not_stale (h : rules.Pairs R n x y) : ¬ rules.Stale n x y := by
  rintro ⟨hrule, hx, hy⟩
  obtain ⟨rule, hrule⟩ := Option.isSome_iff_exists.mp hrule
  rw [(h.no_content_iff hrule).mp hx] at hy
  simp at hy

/-- Where the contents convert into each other, settling changes at most the tag. -/
theorem alike (h : rules.Pairs (Twins mode.direction) n x y) :
    (mode.settled rules n x y = some .directory ↔ y = some .directory) ∧
      contentOf (mode.settled rules n x y) = contentOf y := by
  cases hrule : rules.forEntry? n with
  | none =>
    rw [Mode.settled_of_no_rule hrule]
    exact ⟨.rfl, rfl⟩
  | some rule =>
    rcases h rule hrule with ⟨a, b, ha, hb, hr⟩ | ⟨ha, hb⟩
    · obtain ⟨t, rfl⟩ := contentOf_eq_some.mp hb
      rw [Mode.settled_of_output hrule ha hr.there]
      exact ⟨by simp, rfl⟩
    · rw [Mode.settled_of_no_content hrule ha, hb]
      exact ⟨.rfl, hb⟩

theorem converted_countSource (h : rules.Pairs (Twins mode.direction) n x y) (t : Tally) :
    (mode.countSource rules n x y t).converted = t.converted := by
  unfold Mode.countSource
  split
  · next rule content hrule hx =>
    obtain ⟨b, hb, hr⟩ := h.of_content hrule hx
    rw [hr.there]
    simp [Tally.deal, hb]
  · rfl

end RuleTable.Pairs

/-! ## One pass -/

section Pass

variable {R : FileKind → Bytes → Bytes → Prop} {mode : Mode} {rules : RuleTable} {S T : Path}
variable {A B : Location} {qs : List Path} {d e : Disk} {q : Path} {n : Name} {t : Tally}

theorem Disk.Sides.symm (h : d.Sides S T A B) : d.Sides T S B A :=
  ⟨h.plain, h.destination, h.source, h.inside, h.outside⟩

theorem Disk.Paired.symm (h : d.Paired R rules A B qs) :
    d.Paired (fun kind a b => R kind b a) rules B A qs :=
  ⟨h.destinations, h.sources, fun q hq n => (h.files q hq n).symm⟩

theorem Disk.Paired.mono {R' : FileKind → Bytes → Bytes → Prop} (h : d.Paired R rules A B qs)
    (hR : ∀ kind a b, R kind a b → R' kind a b) : d.Paired R' rules A B qs :=
  ⟨h.sources, h.destinations, fun q hq n => (h.files q hq n).mono hR⟩

/-- Every pass between paired sides can get through. -/
theorem Disk.Paired.fits (h : d.Paired R rules A B qs) (hR : Lasting mode.direction R)
    (hd : d.Plain) (hq : q ∈ qs) : d.Fits mode rules A B q := by
  refine ⟨?_, fun _ => h.destinations q hq, .inl (h.sources q hq), ?_⟩
  · intro m hm
    exact .inr (hd.directory_of_prefix_directory hm (h.destinations q hq))
  · intro n
    exact (h.files q hq n).ready hR

/-- **A pass keeps the sides paired.** -/
theorem Disk.Paired.passed (h : d.Paired R rules A B qs) (hR : Lasting mode.direction R)
    (hd : d.Sides S T A B) (hq : q ∈ qs)
    (hpass : mode.Passed rules (A ++ q.names) (B ++ q.names) d e) :
    e.Paired R rules A B qs := by
  refine ⟨fun r hr => hpass.directories _ (h.sources r hr),
    fun r hr => hpass.directories _ (h.destinations r hr), ?_⟩
  intro r hr n
  have hsource : e.node? (A ++ r.names ++ [n]) = d.node? (A ++ r.names ++ [n]) := by
    rw [List.append_assoc, hpass.source hd]
  rw [hsource]
  rcases hpass.cases hd.plain (h.destinations q hq) (B ++ r.names ++ [n]) with
    hsame | ⟨n', heq, hnew⟩
  · rw [hsame]
    exact h.files r hr n
  · -- The pass may have come by another name of the same directory.
    obtain ⟨hnames, rfl⟩ := entry_inj heq
    rw [hnew, ← hnames]
    exact (h.files r hr n).settled hR

/-- Where the contents convert into each other, a pass changes at most tags. -/
theorem Disk.Paired.alike (h : d.Paired (Twins mode.direction) rules A B qs) (hd : d.Plain)
    (hq : q ∈ qs) (hpass : mode.Passed rules (A ++ q.names) (B ++ q.names) d e) : d.Alike e := by
  intro m
  rcases hpass.cases hd (h.destinations q hq) m with hsame | ⟨n, rfl, hnew⟩
  · rw [hsame]
    exact ⟨.rfl, rfl⟩
  · rw [hnew]
    exact (h.files q hq n).alike

/-- A pass between paired sides deletes nothing. -/
theorem Disk.Paired.deleted_countPass (h : d.Paired R rules A B qs) (hq : q ∈ qs)
    (ns ms : List Name) :
    (mode.countPass rules (A ++ q.names) (B ++ q.names) d ns ms t).deleted = t.deleted :=
  Mode.countPass_keeps Tally.deleted (fun n u => Mode.deleted_countSource mode rules n _ _ u)
    (fun n => (h.files q hq n).not_stale) ns ms

/-- Where the contents convert into each other, a pass converts nothing. -/
theorem Disk.Paired.converted_countPass (h : d.Paired (Twins mode.direction) rules A B qs)
    (hq : q ∈ qs) (ns ms : List Name) :
    (mode.countPass rules (A ++ q.names) (B ++ q.names) d ns ms t).converted = t.converted :=
  Mode.countPass_keeps Tally.converted (fun n => (h.files q hq n).converted_countSource)
    (fun n => (h.files q hq n).not_stale) ns ms

end Pass

/-! ## Whole runs -/

section Runs

variable {R : FileKind → Bytes → Bytes → Prop} {layout : Layout} {mode : Mode}
variable {rules : RuleTable} {S T : Path} {A B : Location} {qs ps : List Path} {d f : Disk}
variable {t u : Tally}

/-- Passes keep the sides paired and delete nothing. -/
theorem Mode.Passes.paired (h : mode.Passes rules A B d t ps f u) (hR : Lasting mode.direction R)
    (hd : d.Sides S T A B) (hps : ∀ p ∈ ps, p ∈ qs) (hpaired : d.Paired R rules A B qs) :
    f.Paired R rules A B qs ∧ u.deleted = t.deleted := by
  induction h with
  | nil => exact ⟨hpaired, rfl⟩
  | @cons d e f t u q ps ms fits passed rest ih =>
    have hq := hps q (by simp)
    obtain ⟨hend, hcount⟩ := ih (hd.kept passed.toKept) (fun p hp => hps p (by simp [hp]))
      (hpaired.passed hR hd hq passed)
    exact ⟨hend, by rw [hcount, hpaired.deleted_countPass hq]⟩

/-- Where the contents convert into each other, passes convert nothing and change
at most tags. -/
theorem Mode.Passes.alike (h : mode.Passes rules A B d t ps f u) (hd : d.Sides S T A B)
    (hps : ∀ p ∈ ps, p ∈ qs) (hpaired : d.Paired (Twins mode.direction) rules A B qs) :
    d.Alike f ∧ u.converted = t.converted := by
  induction h with
  | nil => exact ⟨.refl _, rfl⟩
  | @cons d e f t u q ps ms fits passed rest ih =>
    have hq := hps q (by simp)
    obtain ⟨hend, hcount⟩ := ih (hd.kept passed.toKept) (fun p hp => hps p (by simp [hp]))
      (hpaired.passed (Twins.lasting _) hd hq passed)
    refine ⟨(hpaired.alike hd.plain hq passed).trans hend, ?_⟩
    rw [hcount, hpaired.converted_countPass hq]

/-- **A run between paired sides** gets through. -/
theorem Disk.Paired.passes (h : d.Paired R layout.rules A B layout.subdirs)
    (hR : Lasting mode.direction R) (hdry : mode.dryRun = false) (hwilling : mode.tagger.Willing)
    (hd : d.Sides (layout.sourceRoot mode.direction) (layout.destinationRoot mode.direction) A B)
    (hinner : ∀ q ∈ layout.subdirs, q.Inner) :
    ∃ s, (Run.sync layout mode).run (Session.start d) = (.ok (), s) ∧
      mode.Passes layout.rules A B d .zero layout.subdirs s.disk s.tally := by
  have hends := Run.ends_sync (s := Session.start d) hdry hd hinner
  rcases hrun : (Run.sync layout mode).run (Session.start d) with ⟨e | u, s⟩
  · -- The pass that stopped would have met paired sides, and so it would have fitted.
    obtain ⟨before, q, rest, e, u, hsplit, hpasses, hwhy, -⟩ := hends.error hrun
    have hpaired := (hpasses.paired hR hd (by simp +contextual [hsplit]) h).1
    have hkept := hpasses.kept hd.plain
    rcases hwhy with hno | hno
    · exact absurd (hpaired.fits hR hkept.plain (by simp [hsplit])) hno
    · exact absurd hwilling hno
  · exact ⟨s, rfl, hends.ok hrun⟩

end Runs

/-! ## Dry runs -/

/-- The session `s'` has the disk of `s`, and no more was converted or deleted. -/
structure Session.Still (s s' : Session) : Prop where
  disk : s'.disk = s.disk
  converted : s'.tally.converted = s.tally.converted
  deleted : s'.tally.deleted = s.tally.deleted

theorem Session.Still.trans {s s' s'' : Session} (h : s.Still s') (h' : s'.Still s'') :
    s.Still s'' :=
  ⟨h'.disk.trans h.disk, h'.converted.trans h.converted, h'.deleted.trans h.deleted⟩

namespace Run

section DryRun

variable {layout : Layout} {mode : Mode} {rules : RuleTable} {subdir S T : Path} {q : Path}
variable {A B k l : Location} {n : Name} {d : Disk} {s : Session} {E : Failure → Session → Prop}

variable (rules subdir E) in
/-- A dry run finds a source entry unchanged whose contents convert into each
other. -/
theorem ends_still_entry (hdry : mode.dryRun = true) (hs : s.disk = d) (hd : d.Plain)
    (hS : d.Opens S k) (hT : d.Opens T l) (hn : Name.Proper n)
    (h : rules.Pairs (Twins mode.direction) n (d.node? (k ++ [n])) (d.node? (l ++ [n]))) :
    Ends (execute mode subdir ((d.entry S n).sourceAction rules T)) s
      (fun _ s' => s.Still s') E := by
  subst hs
  by_cases hnot : rules.forEntry? n = none ∨ contentOf (s.disk.node? (k ++ [n])) = none
  · rw [sourceAction_skip hd hS hn hnot]
    exact Ends.of_run_ok (run_skip _ _) ⟨rfl, rfl, rfl⟩
  · push Not at hnot
    obtain ⟨hrule, hsource⟩ := hnot
    obtain ⟨rule, hrule⟩ := Option.ne_none_iff_exists'.mp hrule
    obtain ⟨a, ha⟩ := Option.ne_none_iff_exists'.mp hsource
    obtain ⟨b, hb, hr⟩ := h.of_content hrule ha
    obtain ⟨t, hfile⟩ := contentOf_eq_some.mp ha
    have hread : (read (S.child n)).run s = (.ok a, s) := by
      rw [run_read, read_child hd hS hn, hfile]
    have hfree : s.disk.node? (l ++ [n]) ≠ some .directory := by
      intro hdir
      rw [hdir] at hb
      simp [contentOf] at hb
    have hholds := run_holds_child hd hT hn b hfree
    rw [hb, decide_eq_true rfl] at hholds
    rw [sourceAction_convert hd hS hn hrule ha]
    unfold execute convertFile
    apply Ends.bind_ok hread
    rw [hr.there]
    apply Ends.bind_ok hholds
    apply Ends.bind_ok (run_note s _)
    simp only [hdry, Bool.true_or, Bool.not_true, Bool.false_and, if_true, Bool.false_eq_true,
      if_false]
    exact Ends.of_run_ok (run_count _ _) ⟨rfl, rfl, rfl⟩

variable (rules subdir E) in
/-- The first loop of a dry run. -/
private theorem ends_still_sources (hdry : mode.dryRun = true) (hd : s.disk.Plain)
    (hS : s.disk.Opens S k) (hT : s.disk.Opens T l)
    (hfiles : ∀ n, rules.Pairs (Twins mode.direction) n (s.disk.node? (k ++ [n]))
      (s.disk.node? (l ++ [n]))) :
    Ends ((Plan.ofSource rules T ((s.disk.children k).map (s.disk.entry S))).actions.forM
      (execute mode subdir)) s (fun _ s' => s.Still s') E := by
  rw [Plan.ofSource_actions, List.map_map, forM_map]
  apply Ends.forM (I := fun _ s' => s.Still s') _ ⟨rfl, rfl, rfl⟩
  intro done n rest s' hsplit hstill
  have hn : Name.Proper n := hd.proper_of_mem_children (show n ∈ s.disk.children k by simp [hsplit])
  apply (ends_still_entry rules subdir E hdry hstill.disk hd hS hT hn (hfiles n)).mono
  · intro _ _ hs'
    exact hstill.trans hs'
  · intro _ _ he
    exact he

variable (mode rules subdir E) in
/-- The second loop of a run finds nothing to delete between paired sides. -/
private theorem ends_still_cleanUp {R : FileKind → Bytes → Bytes → Prop} (hd : s.disk.Plain)
    (hS : s.disk.Opens S k) (hT : s.disk.Opens T l)
    (hfiles : ∀ n, rules.Pairs R n (s.disk.node? (k ++ [n])) (s.disk.node? (l ++ [n]))) :
    Ends (cleanUp rules mode subdir T
      (Plan.ofSource rules T ((s.disk.children k).map (s.disk.entry S)))) s
      (fun _ s' => s.Still s') E := by
  have hnone : s.disk.staleNames rules l (fun n => s.disk.node? (k ++ [n])) = [] := by
    apply List.filter_eq_nil_iff.mpr
    intro n _
    simpa using (hfiles n).not_stale
  have hrun := run_cleanUp mode subdir hd hT _ (expects_ofSource rules T hd fun _ => hS)
  rw [hnone] at hrun
  exact Ends.of_run_ok hrun ⟨rfl, rfl, rfl⟩

/-- A pass of a dry run over a subdirectory whose contents convert into each
other. -/
theorem ends_still_pass (hdry : mode.dryRun = true)
    (h : s.disk.Sides (layout.sourceRoot mode.direction) (layout.destinationRoot mode.direction)
      A B) (hq : q ∈ layout.subdirs) (hinner : q.Inner)
    (hpaired : s.disk.Paired (Twins mode.direction) layout.rules A B layout.subdirs) :
    Ends (pass layout mode q) s (fun _ s' => s.Still s') E := by
  have hS := h.source.join h.plain hinner (hpaired.sources q hq)
  have hT := h.destination.join h.plain hinner (hpaired.destinations q hq)
  have hfiles := hpaired.files q hq
  unfold pass
  generalize (layout.sourceRoot mode.direction).join q = S at hS ⊢
  generalize (layout.destinationRoot mode.direction).join q = T at hT ⊢
  rw [hdry, if_pos rfl]
  apply Ends.bind_ok (run_list_opens hS)
  apply (ends_still_sources layout.rules q E hdry h.plain hS hT hfiles).bind
  intro _ s' hstill
  apply Ends.bind_ok (run_get s')
  -- The clean-up reads the disk of `s'`, which is the one that was listed.
  have hdisk := hstill.disk
  rw [← hdisk] at h hS hT hfiles
  rw [isDirectory_iff.mpr ⟨_, hT.directoryAt⟩, ← hdisk]
  simp only [Bool.not_true, Bool.and_false, Bool.false_eq_true, if_false]
  apply (ends_still_cleanUp mode layout.rules q E h.plain hS hT hfiles).mono
  · intro _ _ hs''
    exact hstill.trans hs''
  · intro _ _ he
    exact he

end DryRun

end Run

/-! ## Runs that find nothing to do -/

/-- **A run between sides that convert into each other**, dry or not, gets through,
converts nothing, deletes nothing and changes at most tags. -/
theorem Disk.Paired.still {layout : Layout} (mode : Mode) {A B : Location} {d : Disk}
    (h : d.Paired (Twins mode.direction) layout.rules A B layout.subdirs)
    (hwilling : mode.tagger.Willing)
    (hd : d.Sides (layout.sourceRoot mode.direction) (layout.destinationRoot mode.direction) A B)
    (hinner : ∀ q ∈ layout.subdirs, q.Inner) :
    ∃ s, (Run.sync layout mode).run (Session.start d) = (.ok (), s) ∧
      s.tally.converted = 0 ∧ s.tally.deleted = 0 ∧ d.Alike s.disk ∧ d.Kept s.disk ∧
      s.disk.Paired (Twins mode.direction) layout.rules A B layout.subdirs := by
  cases hdry : mode.dryRun with
  | false =>
    obtain ⟨s, hrun, hpasses⟩ := h.passes (Twins.lasting _) hdry hwilling hd hinner
    obtain ⟨hpaired, hdeleted⟩ := hpasses.paired (Twins.lasting _) hd (fun _ hp => hp) h
    obtain ⟨halike, hconverted⟩ := hpasses.alike hd (fun _ hp => hp) h
    exact ⟨s, hrun, hconverted, hdeleted, halike, hpasses.kept hd.plain, hpaired⟩
  | true =>
    have hends : (Run.sync layout mode).Ends (Session.start d)
        (fun _ s' => (Session.start d).Still s') fun _ _ => False := by
      apply Run.Ends.forM (I := fun _ s' => (Session.start d).Still s') _ ⟨rfl, rfl, rfl⟩
      intro done q rest s hsplit hstill
      have hq : q ∈ layout.subdirs := by simp [hsplit]
      have hdisk : s.disk = d := hstill.disk
      rw [← hdisk] at hd h
      apply (Run.ends_still_pass hdry hd hq (hinner q hq) h).mono
      · intro _ _ hs'
        exact hstill.trans hs'
      · intro _ _ he
        exact he
    rcases hrun : (Run.sync layout mode).run (Session.start d) with ⟨e | u, s⟩
    · exact (hends.error hrun).elim
    · obtain ⟨hdisk, hconverted, hdeleted⟩ := hends.ok hrun
      have hsame : s.disk = d := hdisk
      refine ⟨s, rfl, hconverted, hdeleted, ?_, ?_, ?_⟩ <;> rw [hsame]
      · exact .refl d
      · exact ⟨rfl, hd.plain, fun _ hm => hm⟩
      · exact h

end GuestSync
