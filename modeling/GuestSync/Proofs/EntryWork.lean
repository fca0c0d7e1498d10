/-
# GuestSync.Proofs.EntryWork -- what a run makes of one entry

What an entry of the destination ends as is decided by the rule for its name, by
the source entry of that name and by what stood there before: `settled` says it
in one place. Each action of a run is then described on a plain disk. Converting a
file fails before it touches anything, or it puts the settled node in place, also
where the tagger refuses afterwards. Deleting a stale file puts the settled node
in place as well, and skipping changes nothing.
-/
import GuestSync.Proofs.ActionOutcomes
import GuestSync.Proofs.DirectoryListing
import GuestSync.Proofs.Utf8RoundTrip

namespace GuestSync

/-- The rule for an entry of a directory. A name that is no text has none. -/
def RuleTable.forEntry? (rules : RuleTable) (n : Name) : Option Rule :=
  (Utf8.toString? n).bind rules.forName?

/-- Why an entry is left alone if it is not converted. -/
def RuleTable.skipReason (rules : RuleTable) (n : Name) : SkipReason :=
  match Utf8.toString? n with
  | none => .nameNotText
  | some name => if rules.recognizes name then .notAFile else .unrecognizedSuffix

/-- The content of what is at a location, if it is a regular file. -/
def contentOf : Option Node → Option Bytes
  | some (.file content _) => some content
  | _ => none

/-- The tag of what is at a location, if it is a regular file with one. -/
def tagOf : Option Node → Option Bytes
  | some (.file _ tag) => tag
  | _ => none

theorem contentOf_eq_some {x : Option Node} {c : Bytes} :
    contentOf x = some c ↔ ∃ t, x = some (.file c t) := by
  unfold contentOf
  split
  · next c' t => simp [eq_comm]
  · next hno => simpa using fun t h => hno c t h

/-- Where a file is taken away there is none. -/
theorem contentOf_removed (x : Option Node) :
    contentOf (if (contentOf x).isSome then none else x) = none := by
  split
  · rfl
  · next hno => simpa using hno

/-- A tagger that accepts whatever it is asked. The disk is one wherever a tag can
be stored. -/
def Tagger.Willing : Tagger → Prop
  | .disk => True
  | .listener refusal => ∀ d calls call, refusal d calls call = none

namespace Mode

/-- The tag of a file that a run has dealt with: the block of its rule where the
disk stores tags, and the one that it had otherwise. -/
def tagFor (mode : Mode) (rule : Rule) (old : Option Bytes) : Option Bytes :=
  match mode.direction, mode.tagger with
  | .push, .disk => some rule.info.block
  | _, _ => old

/-- What an entry of the destination ends as, given the source entry of its name
and what stood there before. -/
def settled (mode : Mode) (rules : RuleTable) (n : Name) (source old : Option Node) : Option Node :=
  match rules.forEntry? n with
  | none => old
  | some rule =>
    match contentOf source with
    | none => if (contentOf old).isSome then none else old
    | some content =>
      match convert rule.kind mode.direction content with
      | .error _ => old
      | .ok output => some (.file output (mode.tagFor rule (tagOf old)))

/-- Whether an entry can be settled: the content of its source can be converted,
and no directory stands where it is to go. -/
def Ready (mode : Mode) (rules : RuleTable) (n : Name) (source old : Option Node) : Prop :=
  ∀ rule content, rules.forEntry? n = some rule → contentOf source = some content →
    (∃ output, convert rule.kind mode.direction content = .ok output) ∧ old ≠ some .directory

theorem tagFor_idem (mode : Mode) (rule : Rule) (old : Option Bytes) :
    mode.tagFor rule (mode.tagFor rule old) = mode.tagFor rule old := by
  rcases mode with ⟨⟨⟩ | ⟨⟩, _, ⟨⟩ | ⟨_⟩⟩ <;> rfl

variable {mode : Mode} {rules : RuleTable} {n : Name} {source old : Option Node}

theorem settled_of_no_rule (hrule : rules.forEntry? n = none) :
    mode.settled rules n source old = old := by
  simp only [settled, hrule]

theorem settled_of_no_content {rule : Rule} (hrule : rules.forEntry? n = some rule)
    (hsource : contentOf source = none) :
    mode.settled rules n source old = if (contentOf old).isSome then none else old := by
  simp only [settled, hrule, hsource]

theorem settled_of_error {rule : Rule} {content : Bytes} {fault : ConversionFault}
    (hrule : rules.forEntry? n = some rule) (hsource : contentOf source = some content)
    (hconvert : convert rule.kind mode.direction content = .error fault) :
    mode.settled rules n source old = old := by
  simp only [settled, hrule, hsource, hconvert]

theorem settled_of_output {rule : Rule} {content output : Bytes}
    (hrule : rules.forEntry? n = some rule) (hsource : contentOf source = some content)
    (hconvert : convert rule.kind mode.direction content = .ok output) :
    mode.settled rules n source old = some (.file output (mode.tagFor rule (tagOf old))) := by
  simp only [settled, hrule, hsource, hconvert]

/-- Settling an entry again changes nothing. -/
theorem settled_idem :
    mode.settled rules n source (mode.settled rules n source old) =
      mode.settled rules n source old := by
  cases hrule : rules.forEntry? n with
  | none => rw [settled_of_no_rule hrule]
  | some rule =>
    cases hsource : contentOf source with
    | none =>
      simp only [settled_of_no_content hrule hsource]
      split <;> rfl
    | some content =>
      cases hconvert : convert rule.kind mode.direction content with
      | error fault => rw [settled_of_error hrule hsource hconvert]
      | ok output =>
        simp only [settled_of_output hrule hsource hconvert, tagOf, tagFor_idem]

theorem ready_of_no_source (hnot : rules.forEntry? n = none ∨ contentOf source = none) :
    mode.Ready rules n source old := by
  intro rule content hrule hsource
  simp [hrule, hsource] at hnot

theorem ready_of_output {rule : Rule} {content output : Bytes}
    (hrule : rules.forEntry? n = some rule) (hsource : contentOf source = some content)
    (hconvert : convert rule.kind mode.direction content = .ok output)
    (hfree : old ≠ some .directory) : mode.Ready rules n source old := by
  intro rule' content' hrule' hsource'
  rw [hrule, Option.some.injEq] at hrule'
  rw [hsource, Option.some.injEq] at hsource'
  subst hrule' hsource'
  exact ⟨⟨output, hconvert⟩, hfree⟩

theorem not_ready_of_error {rule : Rule} {content : Bytes} {fault : ConversionFault}
    (hrule : rules.forEntry? n = some rule) (hsource : contentOf source = some content)
    (hconvert : convert rule.kind mode.direction content = .error fault) :
    ¬ mode.Ready rules n source old := by
  intro hready
  obtain ⟨⟨output, hout⟩, -⟩ := hready rule content hrule hsource
  rw [hconvert] at hout
  simp at hout

/-- A directory stays where no file is to go. -/
theorem settled_directory (h : mode.Ready rules n source (some .directory)) :
    mode.settled rules n source (some .directory) = some .directory := by
  cases hrule : rules.forEntry? n with
  | none => exact settled_of_no_rule hrule
  | some rule =>
    cases hsource : contentOf source with
    | none => exact settled_of_no_content hrule hsource
    | some content => exact absurd rfl (h rule content hrule hsource).2

variable (mode rules n source old) in
/-- What an entry ends as is nothing, a file, or what stood there. -/
theorem settled_cases :
    mode.settled rules n source old = none ∨ mode.settled rules n source old = old ∨
      ∃ c t, mode.settled rules n source old = some (.file c t) := by
  cases hrule : rules.forEntry? n with
  | none => exact .inr (.inl (settled_of_no_rule hrule))
  | some rule =>
    cases hsource : contentOf source with
    | none =>
      rw [settled_of_no_content hrule hsource]
      split
      · exact .inl rfl
      · exact .inr (.inl rfl)
    | some content =>
      cases hconvert : convert rule.kind mode.direction content with
      | error fault => exact .inr (.inl (settled_of_error hrule hsource hconvert))
      | ok output => exact .inr (.inr ⟨_, _, settled_of_output hrule hsource hconvert⟩)

end Mode

/-! ## A change at one location -/

/-- The session `s'` has the disk of `s` with another node at one location. -/
structure Session.Changed (s s' : Session) (m : Location) (x : Option Node) : Prop where
  start : s'.disk.start = s.disk.start
  view : s'.disk.node? = Function.update s.disk.node? m x

namespace Session.Changed

variable {s s' s'' : Session} {m : Location} {x y : Option Node}

theorem of_disk (h : s'.disk = s.disk) : s.Changed s' m (s.disk.node? m) :=
  ⟨by rw [h], by rw [h, Function.update_eq_self]⟩

theorem trans (h : s.Changed s' m x) (h' : s'.Changed s'' m y) : s.Changed s'' m y :=
  ⟨h'.start.trans h.start, by rw [h'.view, h.view, Function.update_idem]⟩

theorem node (h : s.Changed s' m x) : s'.disk.node? m = x := by
  rw [h.view, Function.update_self]

theorem node_of_ne (h : s.Changed s' m x) {k : Location} (hk : k ≠ m) :
    s'.disk.node? k = s.disk.node? k := by
  rw [h.view, Function.update_of_ne hk]

theorem keeps (h : s.Changed s' m x) (hm : s.disk.node? m ≠ some .directory) (k : Location)
    (hk : s.disk.node? k = some .directory) : s'.disk.node? k = some .directory := by
  have hne : k ≠ m := by
    rintro rfl
    exact hm hk
  rw [h.node_of_ne hne, hk]

/-- The disk stays plain when a file is put where no directory is, or removed. -/
theorem plain {l : Location} {n : Name} (h : s.Changed s' (l ++ [n]) x) (hd : s.disk.Plain)
    (hl : s.disk.node? l = some .directory) (hn : Name.Proper n)
    (hfree : s.disk.node? (l ++ [n]) ≠ some .directory)
    (hx : ∀ y, x = some y → ∃ c t, y = .file c t) : s'.disk.Plain :=
  hd.of_update h.view hl hn hfree fun y hy => .inr (hx y hy)

theorem opens {p : Path} {l : Location} (h : s.Changed s' m x)
    (hm : s.disk.node? m ≠ some .directory) (hp : s.disk.Opens p l) : s'.disk.Opens p l :=
  hp.mono h.start (h.keeps hm)

end Session.Changed

/-! ## The two halves of a pass -/

/-- Whether a destination entry has to go: it is a file with a rule, and the
source has no file of its name. -/
def RuleTable.Stale (rules : RuleTable) (n : Name) (source old : Option Node) : Prop :=
  (rules.forEntry? n).isSome ∧ contentOf source = none ∧ (contentOf old).isSome

instance (rules : RuleTable) (n : Name) (source old : Option Node) :
    Decidable (rules.Stale n source old) :=
  inferInstanceAs (Decidable (_ ∧ _ ∧ _))

/-- Whether the expected names with a rule are those of source files. -/
def RuleTable.Expects (rules : RuleTable) (expected : List String)
    (source : Name → Option Node) : Prop :=
  ∀ n name, Utf8.toString? n = some name → (rules.forEntry? n).isSome →
    (name ∈ expected ↔ (contentOf (source n)).isSome)

namespace Disk

variable {d e : Disk} {rules : RuleTable} {l : Location} {n : Name} {source : Name → Option Node}

/-- The names in a directory that are stale. -/
def staleNames (d : Disk) (rules : RuleTable) (l : Location) (source : Name → Option Node) :
    List Name :=
  (d.children l).filter fun n => rules.Stale n (source n) (d.node? (l ++ [n]))

theorem mem_children_of_content (h : (contentOf (d.node? (l ++ [n]))).isSome) :
    n ∈ d.children l := by
  rw [mem_children_iff]
  intro hnone
  simp [hnone, contentOf] at h

/-- What is stale is there, so the lists of all names need not be alike. -/
theorem staleNames_congr (h : ∀ n, rules.Stale n (source n) (d.node? (l ++ [n])) ↔
      rules.Stale n (source n) (e.node? (l ++ [n]))) :
    d.staleNames rules l source = e.staleNames rules l source := by
  apply ((pairwise_children d l).filter _).eq_of_mem_iff ((pairwise_children e l).filter _)
  intro n
  simp only [List.mem_filter, decide_eq_true_eq]
  constructor
  · rintro ⟨-, hstale⟩
    rw [h] at hstale
    exact ⟨mem_children_of_content hstale.2.2, hstale⟩
  · rintro ⟨-, hstale⟩
    rw [← h] at hstale
    exact ⟨mem_children_of_content hstale.2.2, hstale⟩

end Disk

namespace Mode

/-- An entry after the first half of a pass, in which source files are
converted. -/
def placed (mode : Mode) (rules : RuleTable) (n : Name) (source old : Option Node) : Option Node :=
  if (contentOf source).isSome then mode.settled rules n source old else old

/-- An entry after the second half of a pass, in which stale entries are deleted. -/
def cleaned (mode : Mode) (rules : RuleTable) (n : Name) (source old : Option Node) : Option Node :=
  if (contentOf source).isSome then old else mode.settled rules n source old

variable {mode : Mode} {rules : RuleTable} {n : Name} {source old : Option Node}

theorem placed_of_content {content : Bytes} (hsource : contentOf source = some content) :
    mode.placed rules n source old = mode.settled rules n source old := by
  rw [placed, hsource, Option.isSome_some, if_pos rfl]

theorem placed_of_no_source (hnot : rules.forEntry? n = none ∨ contentOf source = none) :
    mode.placed rules n source old = old := by
  unfold placed
  rcases hnot with hrule | hsource
  · rw [settled_of_no_rule hrule, ite_self]
  · rw [hsource]
    rfl

theorem cleaned_of_stale (h : rules.Stale n source old) :
    mode.cleaned rules n source old = none := by
  obtain ⟨hrule, hsource, hold⟩ := h
  obtain ⟨rule, hrule⟩ := Option.isSome_iff_exists.mp hrule
  simp [cleaned, hsource, settled_of_no_content hrule hsource, hold]

/-- Each of the three reasons for an entry to stay leaves it as it is. -/
theorem cleaned_of_not_stale (h : ¬ rules.Stale n source old) :
    mode.cleaned rules n source old = old := by
  unfold cleaned
  cases hrule : rules.forEntry? n with
  | none => rw [settled_of_no_rule hrule, ite_self]
  | some rule =>
    cases hsource : contentOf source with
    | some content => rfl
    | none =>
      have hold : ¬ (contentOf old).isSome := by
        intro hold
        exact h ⟨by simp [hrule], hsource, hold⟩
      rw [settled_of_no_content hrule hsource, if_neg hold, ite_self]

theorem cleaned_none (mode : Mode) (rules : RuleTable) (n : Name) (source : Option Node) :
    mode.cleaned rules n source none = none := by
  apply cleaned_of_not_stale
  rintro ⟨-, -, hold⟩
  simp [contentOf] at hold

variable (mode rules n source old) in
theorem cleaned_placed :
    mode.cleaned rules n source (mode.placed rules n source old) =
      mode.settled rules n source old := by
  unfold cleaned placed
  split <;> rfl

end Mode

/-- The counts after a source entry, given what stood at its destination. -/
def Mode.countSource (mode : Mode) (rules : RuleTable) (n : Name) (source old : Option Node)
    (t : Tally) : Tally :=
  match rules.forEntry? n, contentOf source with
  | some rule, some content =>
    match convert rule.kind mode.direction content with
    | .ok output => t.deal mode.direction.tagsDestination (contentOf old = some output)
    | .error _ => t
  | _, _ => t.skip (rules.skipReason n).words

/-- The counts after a destination entry was looked at. -/
def RuleTable.countStale (rules : RuleTable) (n : Name) (source old : Option Node) (t : Tally) :
    Tally :=
  if rules.Stale n source old then { t with deleted := t.deleted + 1 } else t

namespace Mode

variable {mode : Mode} {rules : RuleTable} {n : Name} {source old : Option Node} {t : Tally}

theorem countSource_of_no_source (hnot : rules.forEntry? n = none ∨ contentOf source = none) :
    mode.countSource rules n source old t = t.skip (rules.skipReason n).words := by
  unfold countSource
  rcases hnot with h | h <;> rw [h]
  split <;> simp_all

theorem countSource_of_output {rule : Rule} {content output : Bytes}
    (hrule : rules.forEntry? n = some rule) (hsource : contentOf source = some content)
    (hconvert : convert rule.kind mode.direction content = .ok output) :
    mode.countSource rules n source old t =
      t.deal mode.direction.tagsDestination (contentOf old = some output) := by
  simp only [countSource, hrule, hsource, hconvert]

theorem deleted_countSource (mode : Mode) (rules : RuleTable) (n : Name) (source old : Option Node)
    (t : Tally) : (mode.countSource rules n source old t).deleted = t.deleted := by
  unfold countSource
  split
  · split <;> rfl
  · rfl

end Mode

/-! ## Converting a file -/

/-- The failures that dealing with the entries of two directories can end in: the
content of a source file cannot be converted, a directory stands where a file is to
go, or the tagger refuses. -/
inductive Failure.OfEntry (S T : Path) : Failure → Prop
  | conversion (n : Name) (fault : ConversionFault) : OfEntry S T (.conversion (S.child n) fault)
  | unreadable (n : Name) : OfEntry S T (.operation .read (T.child n) (.system .isDirectory))
  | tagging (n : Name) (cause : Cause) : OfEntry S T (.tagging (T.child n) cause)

/-- The failure of a tag call for a path, by a tagger that is not willing. -/
def Mode.Refused (mode : Mode) (p : Path) (e : Failure) : Prop :=
  ¬ mode.tagger.Willing ∧ ∃ cause, e = .tagging p cause

/-- In a push the file at a path was given the tag of its rule. -/
def Mode.TagGiven (mode : Mode) (rule : Rule) (p : Path) (s : Session) : Prop :=
  mode.direction = .push → .tag ⟨p, rule.info.block⟩ true ∈ s.journal

/-- An entry that is converted was given its tag. -/
def Mode.Tagged (mode : Mode) (rules : RuleTable) (T : Path) (n : Name) (source : Option Node)
    (s : Session) : Prop :=
  ∀ rule, rules.forEntry? n = some rule → (contentOf source).isSome →
    mode.TagGiven rule (T.child n) s

theorem Mode.tagged_of_no_source {mode : Mode} {rules : RuleTable} {T : Path} {n : Name}
    {source : Option Node} {s : Session}
    (hnot : rules.forEntry? n = none ∨ contentOf source = none) :
    mode.Tagged rules T n source s := by
  intro rule hrule hsource
  rcases hnot with h | h <;> simp [h] at hrule hsource

/-- What was given stays given while the journal grows. -/
theorem Mode.Tagged.grows {mode : Mode} {rules : RuleTable} {T : Path} {n : Name}
    {source : Option Node} {s s' : Session} (h : mode.Tagged rules T n source s)
    (hgrows : ∀ e ∈ s.journal, e ∈ s'.journal) : mode.Tagged rules T n source s' := by
  intro rule hrule hsource hpush
  exact hgrows _ (h rule hrule hsource hpush)

namespace Run

open Disk

section Convert

variable {mode : Mode} {rules : RuleTable} {subdir S T : Path} {k l : Location} {n : Name}
variable {s : Session} {rule : Rule}

theorem run_holds_child (hd : s.disk.Plain) (hT : s.disk.Opens T l) (hn : Name.Proper n)
    (content : Bytes) (hfree : s.disk.node? (l ++ [n]) ≠ some .directory) :
    (holds (T.child n) content).run s =
      (.ok (decide (contentOf (s.disk.node? (l ++ [n])) = some content)), s) := by
  rw [run_holds, read_child hd hT hn]
  rcases hd.node_cases (l ++ [n]) with hx | hx | ⟨c, t, hx⟩
  · simp [hx, contentOf]
  · exact absurd hx hfree
  · simp [hx, contentOf, beq_eq_decide]

theorem run_holds_directory (hd : s.disk.Plain) (hT : s.disk.Opens T l) (hn : Name.Proper n)
    (content : Bytes) (hdir : s.disk.node? (l ++ [n]) = some .directory) :
    (holds (T.child n) content).run s =
      (.error (.operation .read (T.child n) (.system .isDirectory)), s) := by
  rw [run_holds, read_child hd hT hn, hdir]

/-- A file gets its content and keeps its tag. -/
theorem run_write_child (hd : s.disk.Plain) (hT : s.disk.Opens T l) (hn : Name.Proper n)
    (content : Bytes) (hfree : s.disk.node? (l ++ [n]) ≠ some .directory) :
    ∃ s', (write (T.child n) content).run s = (.ok (), s') ∧ s'.tally = s.tally ∧
      s.Changed s' (l ++ [n]) (some (.file content (tagOf (s.disk.node? (l ++ [n]))))) := by
  have hwrite : s.disk.write (T.child n) content =
      .ok (s.disk.put (l ++ [n]) (.file content (tagOf (s.disk.node? (l ++ [n]))))) := by
    rw [write_child hd hT hn]
    rcases hd.node_cases (l ++ [n]) with hx | hx | ⟨c, t, hx⟩
    · simp [hx, tagOf]
    · exact absurd hx hfree
    · simp [hx, tagOf]
  have hrun := run_write s (T.child n) content
  rw [hwrite] at hrun
  exact ⟨_, hrun, rfl, rfl, node?_put_update s.disk (by simp) _⟩

/-- A file gets its tag where the disk stores it. Only a listener may refuse. -/
theorem ends_tag_child (hd : s.disk.Plain) (hT : s.disk.Opens T l) (hn : Name.Proper n)
    (hpush : mode.direction = .push) {c : Bytes} {old : Option Bytes}
    (hx : s.disk.node? (l ++ [n]) = some (.file c old)) :
    Ends (tag mode.tagger ⟨T.child n, rule.info.block⟩) s
      (fun _ s' => s'.tally = s.tally ∧ mode.TagGiven rule (T.child n) s' ∧
        s.Changed s' (l ++ [n]) (some (.file c (mode.tagFor rule old))))
      (fun e s' => mode.Refused (T.child n) e ∧
        s.Changed s' (l ++ [n]) (some (.file c (mode.tagFor rule old)))) := by
  obtain ⟨direction, dryRun, tagger⟩ := mode
  dsimp only at hpush
  subst hpush
  cases tagger with
  | disk =>
    have hrun := run_tag_disk s ⟨T.child n, rule.info.block⟩
    rw [setTag_child hd hT hn rule.info.block c old hx] at hrun
    exact Ends.of_run_ok hrun ⟨rfl, fun _ => by simp, rfl, node?_put_update s.disk (by simp) _⟩
  | listener refusal =>
    have hrun := run_tag_listener s refusal ⟨T.child n, rule.info.block⟩
    have hsame : (⟨.push, dryRun, .listener refusal⟩ : Mode).tagFor rule old = old := rfl
    cases hr : refusal s.disk s.tagCalls ⟨T.child n, rule.info.block⟩ with
    | none =>
      rw [hr] at hrun
      refine Ends.of_run_ok hrun ⟨rfl, fun _ => by simp, ?_⟩
      rw [hsame, ← hx]
      exact Session.Changed.of_disk rfl
    | some words =>
      rw [hr] at hrun
      refine Ends.of_run_error hrun ⟨⟨?_, _, rfl⟩, ?_⟩
      · intro hwilling
        rw [hwilling] at hr
        simp at hr
      · rw [hsame, ← hx]
        exact Session.Changed.of_disk rfl

variable (mode rule) in
/-- The second half of a conversion: the tag, if the run gives one, and the
counts. -/
private theorem ends_finish (hd : s.disk.Plain) (hT : s.disk.Opens T l) (hn : Name.Proper n)
    {c : Bytes} {old : Option Bytes} (hx : s.disk.node? (l ++ [n]) = some (.file c old))
    (f : Tally → Tally) :
    Ends (if mode.direction.tagsDestination = true then do
        tag mode.tagger ⟨T.child n, rule.info.block⟩
        count f
      else count f) s
      (fun _ s' => s'.tally = f s.tally ∧ mode.TagGiven rule (T.child n) s' ∧
        s.Changed s' (l ++ [n]) (some (.file c (mode.tagFor rule old))))
      (fun e s' => mode.Refused (T.child n) e ∧
        s.Changed s' (l ++ [n]) (some (.file c (mode.tagFor rule old)))) := by
  cases hdir : mode.direction with
  | push =>
    rw [if_pos (by rfl)]
    apply (ends_tag_child hd hT hn hdir hx).bind
    rintro _ s' ⟨htally, htag, hput⟩
    exact Ends.of_run_ok (run_count s' f) ⟨by rw [htally], htag, hput.start, hput.view⟩
  | pull =>
    have hsame : mode.tagFor rule old = old := by simp [Mode.tagFor, hdir]
    rw [if_neg (by simp [Direction.tagsDestination]), hsame, ← hx]
    have hpull : mode.TagGiven rule (T.child n) { s with tally := f s.tally } := by
      intro hpush
      simp [hdir] at hpush
    exact Ends.of_run_ok (run_count s f) ⟨rfl, hpull, Session.Changed.of_disk rfl⟩

variable (mode rule) in
/-- The content, unless it is there already, and then the second half. -/
private theorem ends_place {old : Option Node} (hd : s.disk.Plain) (hT : s.disk.Opens T l)
    (hn : Name.Proper n) (hold : s.disk.node? (l ++ [n]) = old) (hfree : old ≠ some .directory)
    (output : Bytes) (f : Tally → Tally) :
    Ends (if decide (contentOf old = some output) = true then
        if mode.direction.tagsDestination = true then do
          tag mode.tagger ⟨T.child n, rule.info.block⟩
          count f
        else count f
      else do
        write (T.child n) output
        if mode.direction.tagsDestination = true then do
          tag mode.tagger ⟨T.child n, rule.info.block⟩
          count f
        else count f) s
      (fun _ s' => s'.tally = f s.tally ∧ mode.TagGiven rule (T.child n) s' ∧
        s.Changed s' (l ++ [n]) (some (.file output (mode.tagFor rule (tagOf old)))))
      (fun e s' => mode.Refused (T.child n) e ∧
        s.Changed s' (l ++ [n]) (some (.file output (mode.tagFor rule (tagOf old))))) := by
  by_cases hsame : contentOf old = some output
  · obtain ⟨t, rfl⟩ := contentOf_eq_some.mp hsame
    rw [if_pos (decide_eq_true hsame)]
    exact ends_finish mode rule hd hT hn hold f
  · subst hold
    rw [if_neg (by simpa using hsame)]
    obtain ⟨s₁, hwrite, htally, hput⟩ := run_write_child hd hT hn output hfree
    have hd₁ : s₁.disk.Plain := hput.plain hd hT.directory hn hfree (by simp)
    have hT₁ : s₁.disk.Opens T l := hput.opens hfree hT
    have hfinish := ends_finish mode rule hd₁ hT₁ hn hput.node f
    -- The write and the tag are two changes at one place, so the second one counts.
    apply Ends.bind_ok hwrite
    apply hfinish.mono
    · rintro _ s' ⟨hcount, htag, hs'⟩
      exact ⟨by rw [hcount, htally], htag, hput.trans hs'⟩
    · rintro _ s' ⟨hrefused, hs'⟩
      exact ⟨hrefused, hput.trans hs'⟩

/-- **Converting a file.** It fails without a change, or the entry is settled,
with its tag or without because the tagger refused. -/
theorem ends_convertFile (hdry : mode.dryRun = false) (hd : s.disk.Plain) (hS : s.disk.Opens S k)
    (hT : s.disk.Opens T l) (hn : Name.Proper n) (hrule : rules.forEntry? n = some rule)
    {content : Bytes} (hsource : contentOf (s.disk.node? (k ++ [n])) = some content) :
    Ends (convertFile mode subdir (S.child n) (T.child n) rule) s
      (fun _ s' => mode.Ready rules n (s.disk.node? (k ++ [n])) (s.disk.node? (l ++ [n])) ∧
        (∃ output, convert rule.kind mode.direction content = .ok output ∧
          s'.tally = s.tally.deal mode.direction.tagsDestination
            (contentOf (s.disk.node? (l ++ [n])) = some output)) ∧
        mode.TagGiven rule (T.child n) s' ∧
        s.Changed s' (l ++ [n]) (mode.settled rules n (s.disk.node? (k ++ [n]))
          (s.disk.node? (l ++ [n]))))
      (fun e s' => e.OfEntry S T ∧
        (¬ mode.Ready rules n (s.disk.node? (k ++ [n])) (s.disk.node? (l ++ [n])) ∧
          s'.disk = s.disk ∨
        mode.Refused (T.child n) e ∧
          mode.Ready rules n (s.disk.node? (k ++ [n])) (s.disk.node? (l ++ [n])) ∧
          s.Changed s' (l ++ [n]) (mode.settled rules n (s.disk.node? (k ++ [n]))
            (s.disk.node? (l ++ [n]))))) := by
  obtain ⟨t, hfile⟩ := contentOf_eq_some.mp hsource
  have hread : (read (S.child n)).run s = (.ok content, s) := by
    rw [run_read, read_child hd hS hn, hfile]
  unfold convertFile
  apply Ends.bind_ok hread
  cases hconvert : convert rule.kind mode.direction content with
  | error fault =>
    exact Ends.of_run_error (run_throw s _)
      ⟨.conversion n fault, .inl ⟨Mode.not_ready_of_error hrule hsource hconvert, rfl⟩⟩
  | ok output =>
    dsimp only
    by_cases hdir : s.disk.node? (l ++ [n]) = some .directory
    · -- The comparison with what is there reads the directory, before any write.
      refine Ends.bind_error (run_holds_directory hd hT hn output hdir)
        ⟨.unreadable n, .inl ⟨?_, rfl⟩⟩
      intro hready
      exact (hready rule content hrule hsource).2 hdir
    have hready : mode.Ready rules n (s.disk.node? (k ++ [n])) (s.disk.node? (l ++ [n])) :=
      Mode.ready_of_output hrule hsource hconvert hdir
    apply Ends.bind_ok (run_holds_child hd hT hn output hdir)
    apply Ends.bind_ok (run_note s _)
    simp only [hdry, Bool.false_or, Bool.not_false, Bool.true_and,
      Mode.settled_of_output hrule hsource hconvert]
    apply Ends.mono
    · apply ends_place (l := l) mode rule ?_ ?_ hn ?_ hdir output _
      · exact hd
      · exact hT
      · rfl
    · rintro _ s' ⟨htally, htag, hput⟩
      exact ⟨hready, ⟨output, rfl, htally⟩, htag, hput.start, hput.view⟩
    · rintro _ s' ⟨⟨hwilling, cause, rfl⟩, hput⟩
      exact ⟨.tagging n cause, .inr ⟨⟨hwilling, cause, rfl⟩, hready, hput.start, hput.view⟩⟩

end Convert

/-! ## Entries as they are listed -/

section Listed

variable {mode : Mode} {rules : RuleTable} {subdir S T : Path} {k l : Location} {n : Name}
variable {d : Disk} {s : Session}

private theorem forEntry?_eq_some {rule : Rule} :
    rules.forEntry? n = some rule ↔
      ∃ name, Utf8.toString? n = some name ∧ rules.forName? name = some rule := by
  simp [RuleTable.forEntry?, Option.bind_eq_some_iff]

theorem verdict_ok (hd : d.Plain) (hS : d.Opens S k) (hn : Name.Proper n) {name : String}
    {rule : Rule} (hname : Utf8.toString? n = some name) (hrule : rules.forName? name = some rule)
    {content : Bytes} (hsource : contentOf (d.node? (k ++ [n])) = some content) :
    (d.entry S n).verdict rules = .ok (name, rule) := by
  obtain ⟨t, hfile⟩ := contentOf_eq_some.mp hsource
  have hkind : (d.entry S n).kind = .file := (entry_kind_file hd hS hn).mpr ⟨_, _, hfile⟩
  have hentry : (d.entry S n).name = some name := hname
  unfold Entry.verdict
  rw [hentry]
  dsimp only
  rw [hrule]
  dsimp only
  rw [if_pos hkind]

theorem verdict_error (hd : d.Plain) (hS : d.Opens S k) (hn : Name.Proper n)
    (hnot : rules.forEntry? n = none ∨ contentOf (d.node? (k ++ [n])) = none) :
    (d.entry S n).verdict rules = .error (rules.skipReason n) := by
  unfold Entry.verdict RuleTable.skipReason
  show (match Utf8.toString? n with | none => _ | some name => _) = _
  cases hname : Utf8.toString? n with
  | none => rfl
  | some name =>
    dsimp only
    cases hrule : rules.forName? name with
    | none => simp [RuleTable.recognizes, hrule]
    | some rule =>
      have hsource := hnot.resolve_left (by simp [RuleTable.forEntry?, hname, hrule])
      have hkind : (d.entry S n).kind ≠ .file := by
        rw [ne_eq, entry_kind_file hd hS hn]
        rintro ⟨c, t, hx⟩
        simp [hx, contentOf] at hsource
      dsimp only
      rw [if_neg hkind]
      simp [RuleTable.recognizes, hrule]

/-- The names that the source entries leave in the destination: those of files
with a rule. -/
theorem expectedName?_eq_some (hd : d.Plain) (hS : d.Opens S k) (hn : Name.Proper n)
    {name : String} :
    (d.entry S n).expectedName? rules = some name ↔
      Utf8.toString? n = some name ∧ (rules.forEntry? n).isSome ∧
        (contentOf (d.node? (k ++ [n]))).isSome := by
  unfold Entry.expectedName?
  by_cases hnot : rules.forEntry? n = none ∨ contentOf (d.node? (k ++ [n])) = none
  · rw [verdict_error hd hS hn hnot]
    rcases hnot with h | h <;> simp [h]
  · push Not at hnot
    obtain ⟨hrule, hsource⟩ := hnot
    obtain ⟨rule, hrule⟩ := Option.ne_none_iff_exists'.mp hrule
    obtain ⟨content, hsource⟩ := Option.ne_none_iff_exists'.mp hsource
    obtain ⟨name', hname, hforName⟩ := forEntry?_eq_some.mp hrule
    rw [verdict_ok hd hS hn hname hforName hsource]
    simp [hname, hrule, hsource]

theorem sourceAction_convert (hd : d.Plain) (hS : d.Opens S k) (hn : Name.Proper n) {rule : Rule}
    (hrule : rules.forEntry? n = some rule) {content : Bytes}
    (hsource : contentOf (d.node? (k ++ [n])) = some content) :
    (d.entry S n).sourceAction rules T = .convert (S.child n) (T.child n) rule := by
  obtain ⟨name, hname, hforName⟩ := forEntry?_eq_some.mp hrule
  unfold Entry.sourceAction
  rw [verdict_ok hd hS hn hname hforName hsource]
  show Action.convert (S.child n) (T.join ⟨Utf8.ofString name⟩) rule = _
  rw [Utf8.ofString_of_toString? hname]
  rfl

theorem sourceAction_skip (hd : d.Plain) (hS : d.Opens S k) (hn : Name.Proper n)
    (hnot : rules.forEntry? n = none ∨ contentOf (d.node? (k ++ [n])) = none) :
    (d.entry S n).sourceAction rules T = .skip (S.child n) (rules.skipReason n) := by
  unfold Entry.sourceAction
  rw [verdict_error hd hS hn hnot]
  rfl

theorem name_of_verdict_ok {e : Entry} {name : String} {rule : Rule}
    (h : e.verdict rules = .ok (name, rule)) : e.name = some name := by
  unfold Entry.verdict at h
  split at h
  · simp at h
  · next hname =>
    split at h
    · simp at h
    · split at h
      · simp only [Except.ok.injEq, Prod.mk.injEq] at h
        rw [hname, h.1]
      · simp at h

/-- A source entry is only ever converted into the destination entry of its name. -/
theorem sourceAction_eq_convert {source destination : Path} {rule : Rule}
    (h : (d.entry S n).sourceAction rules T = .convert source destination rule) :
    source = S.child n ∧ destination = T.child n := by
  unfold Entry.sourceAction at h
  split at h
  · next name _ hverdict =>
    have hname : Utf8.toString? n = some name := name_of_verdict_ok hverdict
    simp only [Action.convert.injEq] at h
    refine ⟨h.1.symm, ?_⟩
    rw [← h.2.1, Path.ofString, Utf8.ofString_of_toString? hname]
    rfl
  · simp at h

variable (rules subdir) in
/-- **Dealing with a source entry.** It fails without a change, or the entry is as
the first half of a pass leaves it. -/
theorem ends_sourceEntry (hdry : mode.dryRun = false) (hd : d.Plain) (hSd : d.Opens S k)
    (hs : s.disk.Plain) (hS : s.disk.Opens S k) (hT : s.disk.Opens T l) (hn : Name.Proper n)
    (hsame : d.node? (k ++ [n]) = s.disk.node? (k ++ [n])) :
    Ends (execute mode subdir ((d.entry S n).sourceAction rules T)) s
      (fun _ s' => mode.Ready rules n (s.disk.node? (k ++ [n])) (s.disk.node? (l ++ [n])) ∧
        s'.tally = mode.countSource rules n (s.disk.node? (k ++ [n])) (s.disk.node? (l ++ [n]))
          s.tally ∧
        mode.Tagged rules T n (s.disk.node? (k ++ [n])) s' ∧
        s.Changed s' (l ++ [n]) (mode.placed rules n (s.disk.node? (k ++ [n]))
          (s.disk.node? (l ++ [n]))))
      (fun e s' => e.OfEntry S T ∧
        (¬ mode.Ready rules n (s.disk.node? (k ++ [n])) (s.disk.node? (l ++ [n])) ∧
          s'.disk = s.disk ∨
        mode.Refused (T.child n) e ∧
          mode.Ready rules n (s.disk.node? (k ++ [n])) (s.disk.node? (l ++ [n])) ∧
          s.Changed s' (l ++ [n]) (mode.placed rules n (s.disk.node? (k ++ [n]))
            (s.disk.node? (l ++ [n]))))) := by
  by_cases hnot : rules.forEntry? n = none ∨ contentOf (d.node? (k ++ [n])) = none
  · rw [sourceAction_skip hd hSd hn hnot]
    rw [hsame] at hnot
    rw [Mode.placed_of_no_source hnot, Mode.countSource_of_no_source hnot]
    exact Ends.of_run_ok (run_skip _ _) ⟨Mode.ready_of_no_source hnot, rfl,
      Mode.tagged_of_no_source hnot, Session.Changed.of_disk rfl⟩
  · push Not at hnot
    obtain ⟨hrule, hsource⟩ := hnot
    obtain ⟨rule, hrule⟩ := Option.ne_none_iff_exists'.mp hrule
    obtain ⟨content, hsource⟩ := Option.ne_none_iff_exists'.mp hsource
    rw [sourceAction_convert hd hSd hn hrule hsource]
    rw [hsame] at hsource
    simp only [Mode.placed_of_content hsource]
    apply Ends.mono (ends_convertFile hdry hs hS hT hn hrule hsource)
    · rintro _ s' ⟨hready, ⟨output, hconvert, htally⟩, htag, hchanged⟩
      refine ⟨hready, ?_, ?_, hchanged⟩
      · rw [htally, Mode.countSource_of_output hrule hsource hconvert]
      · intro rule' hrule' _
        rw [hrule, Option.some.injEq] at hrule'
        exact hrule' ▸ htag
    · intro _ s' hs'
      exact hs'

theorem isStale_iff (hd : d.Plain) (hT : d.Opens T l) (hn : Name.Proper n)
    (hthere : d.node? (l ++ [n]) ≠ none) {expected : List String} {source : Option Node}
    (hexpected : ∀ name, Utf8.toString? n = some name → (rules.forEntry? n).isSome →
      (name ∈ expected ↔ (contentOf source).isSome)) :
    (d.entry T n).isStale rules expected = true ↔
      rules.Stale n source (d.node? (l ++ [n])) := by
  have hfile : (d.entry T n).kind = .file ↔ (contentOf (d.node? (l ++ [n]))).isSome := by
    rw [entry_kind_file hd hT hn]
    simp only [Option.isSome_iff_exists, contentOf_eq_some]
  have hbroken : (d.entry T n).kind ≠ .broken := by
    rw [ne_eq, entry_kind_broken hd hT hn]
    exact hthere
  unfold Entry.isStale RuleTable.Stale
  show (match Utf8.toString? n with | none => _ | some name => _) = true ↔ _
  cases hname : Utf8.toString? n with
  | none => simp [RuleTable.forEntry?, hname]
  | some name =>
    have hrec : rules.recognizes name = (rules.forEntry? n).isSome := by
      simp [RuleTable.recognizes, RuleTable.forEntry?, hname]
    simp only [hrec, Bool.and_eq_true, Bool.or_eq_true, beq_iff_eq, hfile, hbroken, or_false,
      Bool.not_eq_true', List.contains_eq_mem, decide_eq_false_iff_not]
    constructor
    · rintro ⟨⟨hold, hrule⟩, hnot⟩
      rw [hexpected name hname hrule] at hnot
      exact ⟨hrule, by simpa using hnot, hold⟩
    · rintro ⟨hrule, hsource, hold⟩
      refine ⟨⟨hold, hrule⟩, ?_⟩
      rw [hexpected name hname hrule, hsource]
      simp

variable (rules subdir) in
/-- **Looking at a destination entry.** It never fails, and the entry is as the
second half of a pass leaves it. -/
theorem ends_destinationEntry (hdry : mode.dryRun = false) (hd : d.Plain) (hTd : d.Opens T l)
    (hs : s.disk.Plain) (hT : s.disk.Opens T l) (hn : Name.Proper n)
    (hthere : d.node? (l ++ [n]) ≠ none) (hsame : d.node? (l ++ [n]) = s.disk.node? (l ++ [n]))
    {expected : List String} {source : Option Node}
    (hexpected : ∀ name, Utf8.toString? n = some name → (rules.forEntry? n).isSome →
      (name ∈ expected ↔ (contentOf source).isSome)) (E : Failure → Session → Prop) :
    Ends (((d.entry T n).destinationAction? rules expected).elim (pure ())
        (execute mode subdir)) s
      (fun _ s' => s'.tally = rules.countStale n source (s.disk.node? (l ++ [n])) s.tally ∧
        s.Changed s' (l ++ [n]) (mode.cleaned rules n source (s.disk.node? (l ++ [n])))) E := by
  have hstale : (d.entry T n).isStale rules expected = true ↔ _ :=
    isStale_iff hd hTd hn hthere hexpected
  rw [hsame] at hstale
  unfold Entry.destinationAction?
  by_cases hgo : rules.Stale n source (s.disk.node? (l ++ [n]))
  · obtain ⟨content, hcontent⟩ := Option.isSome_iff_exists.mp hgo.2.2
    obtain ⟨t, hx⟩ := contentOf_eq_some.mp hcontent
    have hremove : s.disk.remove (d.entry T n).path = .ok (s.disk.erase (l ++ [n])) :=
      remove_child hs hT hn hx
    rw [if_pos (hstale.mpr hgo), Mode.cleaned_of_stale hgo, RuleTable.countStale, if_pos hgo]
    rw [Option.elim_some]
    unfold execute
    apply Ends.bind_ok (run_note s _)
    rw [hdry, if_neg (by simp)]
    refine Ends.bind_ok (run_delete_ok hremove) (Ends.of_run_ok (run_count _ _) ⟨rfl, rfl, ?_⟩)
    exact node?_erase_update s.disk (by simp)
  · rw [if_neg (fun h => hgo (hstale.mp h)), Mode.cleaned_of_not_stale hgo, RuleTable.countStale,
      if_neg hgo]
    exact Ends.of_run_ok (run_pure s ()) ⟨rfl, Session.Changed.of_disk rfl⟩

end Listed

end Run

end GuestSync
