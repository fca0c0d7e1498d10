/-
# GuestSync.Proofs.ActionOutcomes -- how carrying out an action ends

An action can end in so many ways, on any disk and with any tagger, and each of them says
what was found, what was done and which session is left: `Outcome` lists them once, and
what holds of a single action is read off its cases. Up to the tag a conversion is a
matter of the disk: its source is read and converted, its destination is compared with
that and, where it differs, written. `Placed` says that all this went well.
-/
import GuestSync.Proofs.RunRules

namespace GuestSync

/-! ## Answers of a tagger -/

/-- What a tagger answers to a call on a disk, after some calls before: the disk with the
tag, or why there is none. -/
def Tagger.answer (tagger : Tagger) (d : Disk) (before : List TagCall) (call : TagCall) :
    Except Cause Disk :=
  match tagger with
  | .disk => (d.setTag call.path call.block).mapError .system
  | .listener refusal =>
    match refusal d before call with
    | none => .ok d
    | some words => .error (.refused words)

/-- A call is accepted by a disk that stores the tag, or by a listener, which leaves the disk
as it was. -/
theorem Tagger.answer_ok {tagger : Tagger} {d e : Disk} {before : List TagCall} {call : TagCall}
    (h : tagger.answer d before call = .ok e) :
    tagger = .disk ∧ d.setTag call.path call.block = .ok e ∨
      (∃ refusal, tagger = .listener refusal) ∧ e = d := by
  unfold answer at h
  cases tagger with
  | disk =>
    refine .inl ⟨rfl, ?_⟩
    cases htag : d.setTag call.path call.block with
    | ok f =>
      rw [htag] at h
      exact congrArg _ (Except.ok.inj h)
    | error e =>
      rw [htag] at h
      cases h
  | listener refusal =>
    refine .inr ⟨⟨refusal, rfl⟩, ?_⟩
    dsimp only at h
    split at h
    · exact (Except.ok.inj h).symm
    · cases h

/-- A tag call does what the tagger answers, and stands in the journal either way. -/
theorem Run.run_tag (tagger : Tagger) (call : TagCall) (s : Session) :
    (tag tagger call).run s =
      match tagger.answer s.disk s.tagCalls call with
      | .ok d => (.ok (), ⟨d, s.tally, s.journal ++ [.tag call true]⟩)
      | .error cause => (.error (.tagging call.path cause),
          ⟨s.disk, s.tally, s.journal ++ [.tag call false]⟩) := by
  cases tagger with
  | disk =>
    rw [run_tag_disk, Tagger.answer]
    cases s.disk.setTag call.path call.block <;> rfl
  | listener refusal =>
    rw [run_tag_listener, Tagger.answer]
    cases refusal s.disk s.tagCalls call <;> rfl

theorem Session.tagCalls_tag (d : Disk) (tally : Tally) (journal : List Event) (call : TagCall)
    (accepted : Bool) :
    (Session.mk d tally (journal ++ [.tag call accepted])).tagCalls =
      (Session.mk d tally journal).tagCalls ++ [call] := by
  simp [Session.tagCalls]

/-! ## Content on its way -/

/-- Whether a run gives tags. -/
def Mode.tags (mode : Mode) : Bool := !mode.dryRun && mode.direction.tagsDestination

/-- Tags are given in a push that is no dry run. -/
theorem Mode.tags_eq (mode : Mode) :
    mode.tags = true ↔ mode.direction = .push ∧ mode.dryRun = false := by
  unfold Mode.tags
  cases mode.direction <;> cases mode.dryRun <;> simp [Direction.tagsDestination]

/-- What is found at a path is not the content: there is another one, or nothing. -/
def Disk.Differs (d : Disk) (p : Path) (content : Bytes) : Prop :=
  d.read p = .error .notFound ∨ ∃ other ∈ (d.read p).toOption, other ≠ content

instance (d : Disk) (p : Path) (content : Bytes) : Decidable (d.Differs p content) :=
  inferInstanceAs (Decidable (_ ∨ _))

/-- What is read at a source is converted to the output. -/
def Disk.Converts (d : Disk) (direction : Direction) (source : Path) (rule : Rule)
    (output : Bytes) : Prop :=
  ∃ content, d.read source = .ok content ∧ convert rule.kind direction content = .ok output

/-- Everything but the tag goes well in a conversion on the disk `d`, and leaves the disk
`e`: the output was found at the destination, or it was written there. A dry run leaves it
at the comparison. -/
inductive Mode.Placed (mode : Mode) (source destination : Path) (rule : Rule) (d : Disk)
    (output : Bytes) : (same : Bool) → (e : Disk) → Prop
  | found (converts : d.Converts mode.direction source rule output)
      (same : d.read destination = .ok output) :
      Placed mode source destination rule d output true d
  | written {e : Disk} (real : mode.dryRun = false)
      (converts : d.Converts mode.direction source rule output)
      (differs : d.Differs destination output) (write : d.write destination output = .ok e) :
      Placed mode source destination rule d output false e
  | foreseen (dry : mode.dryRun = true) (converts : d.Converts mode.direction source rule output)
      (differs : d.Differs destination output) :
      Placed mode source destination rule d output false d

section Placed

variable {mode : Mode} {source destination : Path} {rule : Rule} {d e : Disk} {output : Bytes}
variable {same : Bool}

theorem Mode.Placed.converts (h : mode.Placed source destination rule d output same e) :
    d.Converts mode.direction source rule output := by
  cases h <;> assumption

/-- In a run that is no dry run the output was found or written. -/
theorem Mode.Placed.real (h : mode.Placed source destination rule d output same e)
    (hdry : mode.dryRun = false) :
    d.Converts mode.direction source rule output ∧
      (e = d ∧ e.read destination = .ok output ∨ d.write destination output = .ok e) := by
  cases h with
  | found converts same => exact ⟨converts, .inl ⟨rfl, same⟩⟩
  | written real converts differs write => exact ⟨converts, .inr write⟩
  | foreseen dry => simp [hdry] at dry

/-- A dry run leaves the disk as it was. -/
theorem Mode.Placed.dry (h : mode.Placed source destination rule d output same e)
    (hdry : mode.dryRun = true) : e = d := by
  cases h with
  | written real => simp [hdry] at real
  | _ => rfl

end Placed

/-- What a conversion tells up to the tag. -/
def Mode.placing (mode : Mode) (q destination : Path) (rule : Rule) (output : Bytes)
    (same : Bool) : List Event :=
  .report mode.dryRun (if same then .unchanged (Run.label q destination)
    else .written rule.kind (Run.label q destination)) ::
  if mode.dryRun || same then [] else [.write destination output]

/-- A conversion goes well from its beginning in the session `s` to its end in the session
`s'`: the file gets in place, and if the run gives tags then its own is accepted. -/
def Mode.Delivers (mode : Mode) (q source destination : Path) (rule : Rule) (s s' : Session) :
    Prop :=
  ∃ output same d, mode.Placed source destination rule s.disk output same d ∧
    if mode.tags then
      (∃ e, mode.tagger.answer d s.tagCalls ⟨destination, rule.info.block⟩ = .ok e) ∧
        s'.journal = s.journal ++ mode.placing q destination rule output same ++
          [.tag ⟨destination, rule.info.block⟩ true]
    else s'.journal = s.journal ++ mode.placing q destination rule output same

/-- The counts with one more file that was dealt with. -/
def Tally.deal (tags same : Bool) (t : Tally) : Tally :=
  { t with
    tagged := if tags then t.tagged + 1 else t.tagged
    unchanged := if same then t.unchanged + 1 else t.unchanged
    converted := if same then t.converted else t.converted + 1 }

namespace Run

/-- **How an action ends** that is carried out in the session `s`: its result and the
session that it leaves. -/
inductive Outcome (mode : Mode) (q : Path) (s : Session) :
    Action → Except Failure Unit → Session → Prop
  /-- The source cannot be read. -/
  | unread {source destination : Path} {rule : Rule} {e : OsError}
      (read : s.disk.read source = .error e) :
      Outcome mode q s (.convert source destination rule)
        (.error (.operation .read source (.system e))) s
  /-- The content cannot be converted. -/
  | unconverted {source destination : Path} {rule : Rule} {content : Bytes}
      {fault : ConversionFault}
      (read : s.disk.read source = .ok content)
      (convert : convert rule.kind mode.direction content = .error fault) :
      Outcome mode q s (.convert source destination rule) (.error (.conversion source fault)) s
  /-- The destination cannot be compared. -/
  | uncompared {source destination : Path} {rule : Rule} {output : Bytes} {e : OsError}
      (converts : s.disk.Converts mode.direction source rule output)
      (read : s.disk.read destination = .error e) (present : e ≠ .notFound) :
      Outcome mode q s (.convert source destination rule)
        (.error (.operation .read destination (.system e))) s
  /-- The destination cannot be written. -/
  | unwritten {source destination : Path} {rule : Rule} {output : Bytes} {e : OsError}
      (real : mode.dryRun = false)
      (converts : s.disk.Converts mode.direction source rule output)
      (differs : s.disk.Differs destination output)
      (write : s.disk.write destination output = .error e) :
      Outcome mode q s (.convert source destination rule)
        (.error (.operation .write destination (.system e)))
        { s with journal := s.journal ++ mode.placing q destination rule output false }
  /-- The tag is refused. -/
  | refused {source destination : Path} {rule : Rule} {output : Bytes} {same : Bool} {d : Disk}
      {cause : Cause} (tags : mode.tags = true)
      (placed : mode.Placed source destination rule s.disk output same d)
      (answer : mode.tagger.answer d s.tagCalls ⟨destination, rule.info.block⟩ = .error cause) :
      Outcome mode q s (.convert source destination rule) (.error (.tagging destination cause))
        ⟨d, s.tally, s.journal ++ mode.placing q destination rule output same ++
          [.tag ⟨destination, rule.info.block⟩ false]⟩
  /-- The file was dealt with and tagged. -/
  | tagged {source destination : Path} {rule : Rule} {output : Bytes} {same : Bool} {d e : Disk}
      (tags : mode.tags = true)
      (placed : mode.Placed source destination rule s.disk output same d)
      (answer : mode.tagger.answer d s.tagCalls ⟨destination, rule.info.block⟩ = .ok e) :
      Outcome mode q s (.convert source destination rule) (.ok ())
        ⟨e, s.tally.deal true same, s.journal ++ mode.placing q destination rule output same ++
          [.tag ⟨destination, rule.info.block⟩ true]⟩
  /-- The file was dealt with in a run that gives no tags. -/
  | converted {source destination : Path} {rule : Rule} {output : Bytes} {same : Bool} {d : Disk}
      (tags : mode.tags = false)
      (placed : mode.Placed source destination rule s.disk output same d) :
      Outcome mode q s (.convert source destination rule) (.ok ())
        ⟨d, s.tally.deal false same, s.journal ++ mode.placing q destination rule output same⟩
  /-- The file cannot be removed. -/
  | undeleted {path : Path} {e : OsError} (real : mode.dryRun = false)
      (remove : s.disk.remove path = .error e) :
      Outcome mode q s (.delete path) (.error (.operation .delete path (.system e)))
        { s with journal := s.journal ++ [.report false (.deleted (label q path)), .delete path] }
  /-- The file was removed. -/
  | deleted {path : Path} {d : Disk} (real : mode.dryRun = false)
      (remove : s.disk.remove path = .ok d) :
      Outcome mode q s (.delete path) (.ok ())
        ⟨d, { s.tally with deleted := s.tally.deleted + 1 },
          s.journal ++ [.report false (.deleted (label q path)), .delete path]⟩
  /-- The file would be removed. -/
  | doomed {path : Path} (dry : mode.dryRun = true) :
      Outcome mode q s (.delete path) (.ok ())
        ⟨s.disk, { s.tally with deleted := s.tally.deleted + 1 },
          s.journal ++ [.report true (.deleted (label q path))]⟩
  /-- The entry was left alone. -/
  | skipped {path : Path} {reason : SkipReason} :
      Outcome mode q s (.skip path reason) (.ok ())
        ⟨s.disk, s.tally.skip reason.words,
          s.journal ++ [.report mode.dryRun (.skipped (label q path) reason)]⟩

/-! ## The outcomes are all there are -/

/-- The end of a conversion, from the moment on when the file is in place: the tag, if the
run gives any, and the counts. -/
def finish (mode : Mode) (destination : Path) (rule : Rule) (same : Bool) : Run Unit := do
  if mode.tags then
    tag mode.tagger ⟨destination, rule.info.block⟩
  count (Tally.deal mode.tags same)

section Outcomes

variable {mode : Mode} {q source destination path : Path} {rule : Rule} {s s' : Session}
variable {output : Bytes} {same : Bool} {result : Except Failure Unit}

variable (mode q source destination rule) in
theorem convertFile_eq :
    convertFile mode q source destination rule = (do
      let input ← read source
      match convert rule.kind mode.direction input with
      | .error fault => throw (.conversion source fault)
      | .ok output =>
        let same ← holds destination output
        note (.report mode.dryRun (if same then .unchanged (label q destination)
          else .written rule.kind (label q destination)))
        unless mode.dryRun || same do
          write destination output
        finish mode destination rule same) := rfl

/-- The three ways in which a comparison ends. -/
theorem run_holds_cases (s : Session) (p : Path) (content : Bytes) :
    (s.disk.read p = .ok content ∧ (holds p content).run s = (.ok true, s)) ∨
      (s.disk.Differs p content ∧ (holds p content).run s = (.ok false, s)) ∨
      ∃ e, s.disk.read p = .error e ∧ e ≠ .notFound ∧
        (holds p content).run s = (.error (.operation .read p (.system e)), s) := by
  rw [run_holds]
  cases hread : s.disk.read p with
  | ok existing =>
    by_cases hsame : existing = content
    · exact .inl ⟨by rw [hsame], by simp [hsame]⟩
    · refine .inr (.inl ⟨.inr ⟨existing, by rw [hread]; rfl, hsame⟩, ?_⟩)
      dsimp only
      rw [beq_eq_false_iff_ne.mpr hsame]
  | error e =>
    by_cases hmissing : e = .notFound
    · subst hmissing
      exact .inr (.inl ⟨.inl hread, rfl⟩)
    · refine .inr (.inr ⟨e, rfl, hmissing, ?_⟩)
      cases e <;> first | exact absurd rfl hmissing | rfl

/-- Nobody is asked for a tag before the file is in place. -/
theorem tagCalls_placing (d : Disk) (tally : Tally) :
    (Session.mk d tally (s.journal ++ mode.placing q destination rule output same)).tagCalls =
      s.tagCalls := by
  unfold Session.tagCalls Mode.placing
  cases mode.dryRun || same <;> simp

/-- A write and what comes after it, in the session in which the line for the file has been
said. -/
theorem run_write_finish (hdry : mode.dryRun = false) (s : Session) :
    (write destination output >>= fun _ => finish mode destination rule false).run
        { s with
          journal := s.journal ++ [.report false (.written rule.kind (label q destination))] } =
      match s.disk.write destination output with
      | .ok d => (finish mode destination rule false).run
          ⟨d, s.tally, s.journal ++ mode.placing q destination rule output false⟩
      | .error e => (.error (.operation .write destination (.system e)),
          { s with journal := s.journal ++ mode.placing q destination rule output false }) := by
  have htold : mode.placing q destination rule output false =
      [.report false (.written rule.kind (label q destination)), .write destination output] := by
    rw [Mode.placing, hdry]
    rfl
  rw [run_bind, run_write, htold]
  cases s.disk.write destination output <;>
    simp only [List.append_assoc, List.cons_append, List.nil_append]

/-- The outcome of a conversion that has got the file in place. -/
theorem outcome_of_placed {d : Disk}
    (hplaced : mode.Placed source destination rule s.disk output same d)
    (hrun : (finish mode destination rule same).run
      ⟨d, s.tally, s.journal ++ mode.placing q destination rule output same⟩ = (result, s')) :
    Outcome mode q s (.convert source destination rule) result s' := by
  unfold finish at hrun
  cases htags : mode.tags with
  | false =>
    rw [htags] at hrun
    obtain ⟨rfl, rfl⟩ := Prod.mk.inj hrun
    exact .converted htags hplaced
  | true =>
    rw [htags, if_pos rfl, run_bind, run_tag, tagCalls_placing] at hrun
    cases hanswer : mode.tagger.answer d s.tagCalls ⟨destination, rule.info.block⟩ with
    | ok e =>
      rw [hanswer] at hrun
      obtain ⟨rfl, rfl⟩ := Prod.mk.inj hrun
      exact .tagged htags hplaced hanswer
    | error cause =>
      rw [hanswer] at hrun
      obtain ⟨rfl, rfl⟩ := Prod.mk.inj hrun
      exact .refused htags hplaced hanswer

theorem outcome_convertFile
    (hrun : (convertFile mode q source destination rule).run s = (result, s')) :
    Outcome mode q s (.convert source destination rule) result s' := by
  rw [convertFile_eq, run_bind, run_read] at hrun
  cases hread : s.disk.read source with
  | error e =>
    rw [hread] at hrun
    obtain ⟨rfl, rfl⟩ := Prod.mk.inj hrun
    exact .unread hread
  | ok content =>
    rw [hread] at hrun
    dsimp only at hrun
    cases hconvert : convert rule.kind mode.direction content with
    | error fault =>
      rw [hconvert] at hrun
      obtain ⟨rfl, rfl⟩ := Prod.mk.inj hrun
      exact .unconverted hread hconvert
    | ok output =>
      have hconverts : s.disk.Converts mode.direction source rule output :=
        ⟨content, hread, hconvert⟩
      rw [hconvert] at hrun
      rcases run_holds_cases s destination output with
        ⟨hsame, hholds⟩ | ⟨hdiffers, hholds⟩ | ⟨e, he, hpresent, hholds⟩
      · rw [run_bind_ok hholds, run_bind_ok (run_note _ _), Bool.or_true, if_pos rfl] at hrun
        apply outcome_of_placed (.found hconverts hsame)
        rwa [Mode.placing, Bool.or_true, if_pos rfl]
      · rw [run_bind_ok hholds, run_bind_ok (run_note _ _), Bool.or_false] at hrun
        cases hdry : mode.dryRun with
        | true =>
          rw [hdry, if_pos rfl] at hrun
          apply outcome_of_placed (.foreseen hdry hconverts hdiffers)
          rwa [Mode.placing, hdry, Bool.or_false, if_pos rfl]
        | false =>
          rw [hdry] at hrun
          have hplacing := (run_write_finish hdry s).symm.trans hrun
          cases hwrite : s.disk.write destination output with
          | error e =>
            rw [hwrite] at hplacing
            obtain ⟨rfl, rfl⟩ := Prod.mk.inj hplacing
            exact .unwritten hdry hconverts hdiffers hwrite
          | ok d =>
            rw [hwrite] at hplacing
            exact outcome_of_placed (.written hdry hconverts hdiffers hwrite) hplacing
      · rw [run_bind_error hholds] at hrun
        obtain ⟨rfl, rfl⟩ := Prod.mk.inj hrun
        exact .uncompared hconverts he hpresent

theorem run_skip (path : Path) (reason : SkipReason) :
    (execute mode q (.skip path reason)).run s =
      (.ok (), ⟨s.disk, s.tally.skip reason.words,
        s.journal ++ [.report mode.dryRun (.skipped (label q path) reason)]⟩) := rfl

/-- **Every action has one of the outcomes.** -/
theorem outcome_execute {a : Action} (hrun : (execute mode q a).run s = (result, s')) :
    Outcome mode q s a result s' := by
  cases a with
  | convert source destination rule => exact outcome_convertFile hrun
  | delete path =>
    unfold execute at hrun
    rw [run_bind, run_note] at hrun
    cases hdry : mode.dryRun with
    | true =>
      rw [hdry] at hrun
      obtain ⟨rfl, rfl⟩ := Prod.mk.inj hrun
      exact .doomed hdry
    | false =>
      rw [hdry] at hrun
      dsimp only at hrun
      rw [if_neg Bool.false_ne_true, run_bind, run_delete] at hrun
      cases hremove : s.disk.remove path with
      | error e =>
        rw [hremove] at hrun
        obtain ⟨rfl, rfl⟩ := Prod.mk.inj hrun
        simpa using Outcome.undeleted (q := q) hdry hremove
      | ok d =>
        rw [hremove] at hrun
        obtain ⟨rfl, rfl⟩ := Prod.mk.inj hrun
        simpa using Outcome.deleted (q := q) hdry hremove
  | skip path reason =>
    rw [run_skip] at hrun
    obtain ⟨rfl, rfl⟩ := Prod.mk.inj hrun
    exact .skipped

/-- A conversion that gets through has gone well. -/
theorem Outcome.delivers
    (h : Outcome mode q s (.convert source destination rule) (.ok ()) s') :
    mode.Delivers q source destination rule s s' := by
  cases h with
  | tagged tags placed answer =>
    refine ⟨_, _, _, placed, ?_⟩
    rw [if_pos tags]
    exact ⟨⟨_, answer⟩, rfl⟩
  | converted tags placed =>
    refine ⟨_, _, _, placed, ?_⟩
    rw [if_neg (by simp [tags])]

end Outcomes

end Run

end GuestSync
