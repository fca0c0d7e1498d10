/-
# GuestSync.Proofs.TagOrder -- tags follow content

A run that gives tags asks for one in every turn in which the converted file has got into
place, be it that it was there already, and in no other turn. It asks right after that, so
what the tagger is asked about is read as the converted content. Which turns there are
depends on the run itself: a refused tag ends it.
-/
import GuestSync.Proofs.DryRun
import GuestSync.Proofs.RunVisits

namespace GuestSync

/-! ## Turns in which a tag is asked for -/

/-- On this disk the converted file gets into place: its source is read and converted, and
its destination holds the result or takes it. -/
def Disk.Places (d : Disk) (direction : Direction) (source destination : Path) (rule : Rule) :
    Prop :=
  ∃ content ∈ (d.read source).toOption,
    ∃ output ∈ (convert rule.kind direction content).toOption,
      d.read destination = .ok output ∨
        d.Differs destination output ∧ (d.write destination output).isOk = true

instance (d : Disk) (direction : Direction) (source destination : Path) (rule : Rule) :
    Decidable (d.Places direction source destination rule) :=
  inferInstanceAs (Decidable (∃ content ∈ (d.read source).toOption, _))

/-- The tag that is asked for when an action is carried out on a disk: the one for a file
that gets into place, if the run gives any. -/
def Mode.callOn? (mode : Mode) (d : Disk) : Action → Option TagCall
  | .convert source destination rule =>
    if mode.tags = true ∧ d.Places mode.direction source destination rule then
      some ⟨destination, rule.info.block⟩
    else none
  | .delete _ => none
  | .skip _ _ => none

theorem mem_toOption {ε α : Type} {x : Except ε α} {a : α} : a ∈ x.toOption ↔ x = .ok a := by
  cases x <;> simp [Except.toOption]

section Outcomes

variable {mode : Mode} {q source destination : Path} {rule : Rule} {a : Action} {d e : Disk}
variable {output : Bytes} {same : Bool} {result : Except Failure Unit} {s t : Session}
variable {told rest : List Event} {call : TagCall} {accepted : Bool}

theorem Disk.Differs.ne (h : d.Differs destination output) : d.read destination ≠ .ok output := by
  rintro hsame
  rcases h with hmissing | ⟨other, hother, hne⟩
  · rw [hsame] at hmissing
    cases hmissing
  · rw [mem_toOption, hsame] at hother
    exact hne (Except.ok.inj hother).symm

theorem Disk.places_iff {direction : Direction} :
    d.Places direction source destination rule ↔
      ∃ output, d.Converts direction source rule output ∧
        (d.read destination = .ok output ∨
          d.Differs destination output ∧ (d.write destination output).isOk = true) := by
  simp only [Places, Converts, mem_toOption]
  constructor
  · rintro ⟨content, hread, output, hconvert, hin⟩
    exact ⟨output, ⟨content, hread, hconvert⟩, hin⟩
  · rintro ⟨output, ⟨content, hread, hconvert⟩, hin⟩
    exact ⟨content, hread, output, hconvert, hin⟩

theorem Disk.Converts.inj {direction : Direction} {output' : Bytes}
    (h : d.Converts direction source rule output) (h' : d.Converts direction source rule output') :
    output' = output := by
  obtain ⟨content, hread, hconvert⟩ := h
  obtain ⟨content', hread', hconvert'⟩ := h'
  obtain rfl := Except.ok.inj (hread.symm.trans hread')
  exact Except.ok.inj (hconvert'.symm.trans hconvert)

theorem Mode.Placed.places (h : mode.Placed source destination rule d output same e)
    (hdry : mode.dryRun = false) : d.Places mode.direction source destination rule := by
  rw [Disk.places_iff]
  cases h with
  | found converts same => exact ⟨output, converts, .inl same⟩
  | written real converts differs write =>
    exact ⟨output, converts, .inr ⟨differs, by rw [write]; rfl⟩⟩
  | foreseen dry => simp [hdry] at dry

/-- Once the file is in place its destination is read as the output. -/
theorem Mode.Placed.read (h : mode.Placed source destination rule d output same e)
    (hdry : mode.dryRun = false) : e.read destination = .ok output := by
  obtain ⟨-, ⟨-, hsame⟩ | hwrite⟩ := h.real hdry
  · exact hsame
  · exact Disk.read_write hwrite

theorem Mode.callOn?_of_untagged (htags : ¬ mode.tags = true) : mode.callOn? d a = none := by
  cases a with
  | convert source destination rule => exact if_neg fun h => htags h.1
  | delete path => rfl
  | skip path reason => rfl

/-- Where the file cannot get into place no tag is asked for. -/
theorem Mode.callOn?_of_not_places (h : ¬ d.Places mode.direction source destination rule) :
    mode.callOn? d (.convert source destination rule) = none := if_neg fun h' => h h'.2

theorem Mode.callOn?_of_placed (h : mode.Placed source destination rule d output same e)
    (htags : mode.tags = true) :
    mode.callOn? d (.convert source destination rule) = some ⟨destination, rule.info.block⟩ :=
  if_pos ⟨htags, h.places (mode.tags_eq.mp htags).2⟩

/-- **The tag calls of an action**, however it ends. -/
theorem Run.Outcome.tagCalls (h : Run.Outcome mode q s a result t) :
    t.tagCalls = s.tagCalls ++ (mode.callOn? s.disk a).toList := by
  cases h with
  | unread read =>
    rw [Mode.callOn?_of_not_places, Option.toList_none, List.append_nil]
    rw [Disk.places_iff]
    rintro ⟨output, ⟨content, hread, -⟩, -⟩
    rw [read] at hread
    cases hread
  | unconverted read convert =>
    rw [Mode.callOn?_of_not_places, Option.toList_none, List.append_nil]
    rw [Disk.places_iff]
    rintro ⟨output, ⟨content, hread, hconvert⟩, -⟩
    obtain rfl := Except.ok.inj (read.symm.trans hread)
    rw [convert] at hconvert
    cases hconvert
  | uncompared converts read present =>
    rw [Mode.callOn?_of_not_places, Option.toList_none, List.append_nil]
    rw [Disk.places_iff]
    rintro ⟨output, -, hsame | ⟨hmissing | ⟨other, hother, -⟩, -⟩⟩
    · rw [read] at hsame
      cases hsame
    · rw [read] at hmissing
      exact present (Except.error.inj hmissing)
    · rw [mem_toOption, read] at hother
      cases hother
  | unwritten real converts differs write =>
    rw [Mode.callOn?_of_not_places, Option.toList_none, List.append_nil, tagCalls_placing]
    rw [Disk.places_iff]
    rintro ⟨output, hconverts, hsame | ⟨-, hwrite⟩⟩
    · obtain rfl := converts.inj hconverts
      exact differs.ne hsame
    · obtain rfl := converts.inj hconverts
      rw [write] at hwrite
      cases hwrite
  | refused tags placed answer =>
    rw [Mode.callOn?_of_placed placed tags, Session.tagCalls_tag, tagCalls_placing]
    rfl
  | tagged tags placed answer =>
    rw [Mode.callOn?_of_placed placed tags, Session.tagCalls_tag, tagCalls_placing]
    rfl
  | converted tags placed =>
    rw [Mode.callOn?_of_untagged (by simp [tags]), tagCalls_placing]
    exact (List.append_nil _).symm
  | undeleted | deleted | doomed | skipped => simp [Mode.callOn?, Session.tagCalls]

/-- Nothing that is told up to the tag is a tag. -/
theorem Mode.tag_not_mem_placing :
    Event.tag call accepted ∉ mode.placing q destination rule output same := by
  unfold Mode.placing
  cases mode.dryRun || same <;> simp

/-- The last element of a list, if it stands in a place where it is the first of its kind. -/
theorem last_of_split {α : Type} {l later rest : List α} {x y : α}
    (h : l ++ [x] = later ++ y :: rest) (hy : y ∉ l) : later = l ∧ y = x ∧ rest = [] := by
  rcases rest.eq_nil_or_concat with rfl | ⟨rest', z, rfl⟩
  · obtain ⟨rfl, hxy⟩ := List.append_inj' h rfl
    exact ⟨rfl, (List.cons.inj hxy).1.symm, rfl⟩
  · rw [List.concat_eq_append, ← List.cons_append, ← List.append_assoc] at h
    obtain ⟨rfl, -⟩ := List.append_inj' h rfl
    exact absurd (by simp) hy

/-- **Where a tag call comes from**: from a conversion that had got its file into place. It
is the last that the conversion tells, and refused it leaves everything as it was. -/
theorem Run.Outcome.tag_told (h : Run.Outcome mode q s a result t)
    (htold : t.journal = told ++ .tag call accepted :: rest) (hbefore : s.journal <+: told) :
    ∃ source destination rule output same d, a = .convert source destination rule ∧
      mode.tags = true ∧ mode.Placed source destination rule s.disk output same d ∧
      call = ⟨destination, rule.info.block⟩ ∧
      told = s.journal ++ mode.placing q destination rule output same ∧ rest = [] ∧
      (accepted = false → t.disk = d ∧ t.tally = s.tally ∧
        ∃ cause, mode.tagger.answer d s.tagCalls call = .error cause ∧
          result = .error (.tagging destination cause)) := by
  obtain ⟨later, rfl⟩ := hbefore
  rw [List.append_assoc] at htold
  -- What the conversion itself has told, and that the tag call is among it.
  have hown : ∀ es, t.journal = s.journal ++ es → es = later ++ .tag call accepted :: rest := by
    intro es hes
    rwa [hes, List.append_cancel_left_eq] at htold
  have hmem : ∀ es, t.journal = s.journal ++ es → .tag call accepted ∈ es := by
    intro es hes
    rw [hown es hes]
    simp
  cases h with
  | refused tags placed answer =>
    obtain ⟨rfl, hcall, rfl⟩ :=
      last_of_split (hown _ (List.append_assoc ..)) Mode.tag_not_mem_placing
    obtain ⟨rfl, rfl⟩ := Event.tag.inj hcall
    exact ⟨_, _, _, _, _, _, rfl, tags, placed, rfl, rfl, rfl, fun _ => ⟨rfl, rfl, _, answer, rfl⟩⟩
  | tagged tags placed answer =>
    obtain ⟨rfl, hcall, rfl⟩ :=
      last_of_split (hown _ (List.append_assoc ..)) Mode.tag_not_mem_placing
    obtain ⟨rfl, rfl⟩ := Event.tag.inj hcall
    exact ⟨_, _, _, _, _, _, rfl, tags, placed, rfl, rfl, rfl, nofun⟩
  | unwritten => exact absurd (hmem _ rfl) Mode.tag_not_mem_placing
  | converted => exact absurd (hmem _ rfl) Mode.tag_not_mem_placing
  | unread | unconverted | uncompared => simpa using hmem [] (List.append_nil _).symm
  | undeleted | deleted | doomed | skipped => simpa using hmem _ rfl

end Outcomes

/-! ## The turns of a run -/

/-- The turn of a source entry in the pass for a subdirectory: the session that it finds. -/
structure Dealing where
  subdir : Path
  entry : Entry
  session : Session

namespace Layout

/-- The entries that a pass comes to deal with, each with the session that it finds. -/
def turns (layout : Layout) (mode : Mode) (q : Path) (s : Session) : List (Entry × Session) :=
  match (layout.opening mode q).run s with
  | (.ok entries, t) => Run.visits (layout.dealWith mode q) entries t
  | (.error _, _) => []

/-- All turns of a run, in their order. -/
def dealings (layout : Layout) (mode : Mode) (s : Session) : List Dealing :=
  (layout.visited mode s).flatMap fun v =>
    (layout.turns mode v.1 v.2).map fun w => ⟨v.1, w.1, w.2⟩

/-- The tag that is asked for in a turn. -/
def callIn? (layout : Layout) (mode : Mode) (v : Dealing) : Option TagCall :=
  mode.callOn? v.session.disk (v.entry.sourceAction layout.rules
    ((layout.destinationRoot mode.direction).join v.subdir))

section Turns

variable {layout : Layout} {mode : Mode} {q : Path}

theorem tagCalls_opening (layout : Layout) (mode : Mode) (q : Path) (s : Session) :
    ((layout.opening mode q).run s).2.tagCalls = s.tagCalls := by
  have htells : Run.Tells mode.tagger (fun _ => True) (∀ call accepted, · ≠ .tag call accepted)
      (layout.opening mode q) := tells_opening (by simp)
  obtain ⟨es, hled, hnone⟩ := htells s trivial
  refine Run.filterMap_of_led hled ?_
  intro e he
  cases e with
  | tag call accepted => exact absurd rfl (hnone _ he call accepted)
  | _ => rfl

theorem tagCalls_closing (entries : List Entry) (s : Session) :
    ((layout.closing mode q entries).run s).2.tagCalls = s.tagCalls := by
  obtain ⟨es, hled, hclears⟩ := tells_closing s trivial
  refine Run.filterMap_of_led hled ?_
  intro e he
  cases hclears e he <;> rfl

/-- The tag calls of a turn. -/
theorem tagCalls_dealWith (e : Entry) (s : Session) :
    ((layout.dealWith mode q e).run s).2.tagCalls =
      s.tagCalls ++ (layout.callIn? mode ⟨q, e, s⟩).toList :=
  (Run.outcome_execute rfl).tagCalls

/-- The tag calls of a pass. -/
theorem tagCalls_pass (q : Path) (s : Session) :
    ((Run.pass layout mode q).run s).2.tagCalls =
      s.tagCalls ++ (layout.turns mode q s).flatMap fun w =>
        (layout.callIn? mode ⟨q, w.1, w.2⟩).toList := by
  rw [pass_eq, turns]
  have hopening := tagCalls_opening layout mode q s
  rcases hrun : (layout.opening mode q).run s with ⟨e | entries, t⟩ <;> rw [hrun] at hopening
  · rw [Run.run_bind_error hrun, hopening]
    exact (List.append_nil _).symm
  · rw [Run.run_bind_ok hrun, Run.gather_bind Session.tagCalls fun _ => tagCalls_closing entries,
      deal_eq, Run.gather_forM Session.tagCalls tagCalls_dealWith, hopening]

/-- **The tag calls of a run**, however it ends. -/
theorem tagCalls_sync (layout : Layout) (mode : Mode) (s : Session) :
    ((Run.sync layout mode).run s).2.tagCalls =
      s.tagCalls ++ (layout.dealings mode s).filterMap (layout.callIn? mode) := by
  rw [Run.sync, Run.gather_forM Session.tagCalls tagCalls_pass, List.filterMap_eq_flatMap_toList,
    dealings, visited, List.flatMap_assoc]
  simp only [List.flatMap_map]

end Turns

/-! ## One turn among the others -/

section Turn

variable {layout : Layout} {mode : Mode} {s : Session} {earlier later : List (Path × Session)}
variable {p : Path × Session} {before after : List (Entry × Session)} {w : Entry × Session}
variable (hpass : layout.visited mode s = earlier ++ p :: later)
variable (hturn : layout.turns mode p.1 p.2 = before ++ w :: after)

include hturn in
/-- The turn comes after an opening that has got through. -/
theorem opening_of_turn : ∃ entries t,
    (layout.opening mode p.1).run p.2 = (.ok entries, t) ∧
      Run.visits (layout.dealWith mode p.1) entries t = before ++ w :: after := by
  unfold turns at hturn
  rcases hrun : (layout.opening mode p.1).run p.2 with ⟨e | entries, t⟩ <;> rw [hrun] at hturn
  · simp at hturn
  · exact ⟨entries, t, rfl, hturn⟩

include hpass hturn

/-- The events up to a turn have led to the session that it finds. -/
theorem led_turn : ∃ es, s.Led mode.tagger es w.2 := by
  obtain ⟨entries, t, hopening, hvisits⟩ := opening_of_turn hturn
  obtain ⟨-, -, hpasses, -⟩ := Run.visits_split hpass
  obtain ⟨-, -, hdealt, -⟩ := Run.visits_split hvisits
  have hloop : Run.Journaled mode.tagger
      ((before.map Prod.fst).forM (layout.dealWith mode p.1)) :=
    .forM _ fun e => Run.journaled_execute mode p.1 _
  obtain ⟨es₁, hled₁⟩ := (Run.Journaled.forM _ (Run.journaled_pass layout mode)).led hpasses
  obtain ⟨es₂, hled₂⟩ := (layout.journaled_opening mode p.1).led hopening
  obtain ⟨es₃, hled₃⟩ := hloop.led hdealt
  exact ⟨_, (hled₁.trans hled₂).trans hled₃⟩

/-- A turn that fails ends the run. -/
theorem run_of_turn_error {e : Failure} {t : Session}
    (h : (layout.dealWith mode p.1 w.1).run w.2 = (.error e, t)) :
    (Run.sync layout mode).run s = (.error e, t) := by
  obtain ⟨entries, t₀, hopening, hvisits⟩ := opening_of_turn hturn
  have hdeal : (layout.deal mode p.1 entries).run t₀ = (.error e, t) := by
    rw [deal_eq]
    exact Run.run_of_visit_error (by simp [hvisits]) h
  have hfails : (Run.pass layout mode p.1).run p.2 = (.error e, t) := by
    rw [pass_eq, Run.run_bind_ok hopening, Run.run_bind_error hdeal]
  have hmem : p ∈ layout.visited mode s := by simp [hpass]
  exact Run.run_of_visit_error hmem hfails

/-- The turns of the run, and the tag calls up to one of them. -/
theorem tagCalls_turn : ∃ done rest,
    layout.dealings mode s = done ++ ⟨p.1, w.1, w.2⟩ :: rest ∧
      w.2.tagCalls = s.tagCalls ++ done.filterMap (layout.callIn? mode) := by
  obtain ⟨entries, t, hopening, hvisits⟩ := opening_of_turn hturn
  have hopened : t.tagCalls = p.2.tagCalls := by
    rw [← tagCalls_opening layout mode p.1 p.2, hopening]
  refine ⟨(earlier.flatMap fun v => (layout.turns mode v.1 v.2).map fun w => ⟨v.1, w.1, w.2⟩) ++
    before.map (fun w => ⟨p.1, w.1, w.2⟩), after.map (fun w => ⟨p.1, w.1, w.2⟩) ++
      later.flatMap fun v => (layout.turns mode v.1 v.2).map fun w => ⟨v.1, w.1, w.2⟩,
    by simp [dealings, hpass, hturn], ?_⟩
  rw [Run.gather_visit Session.tagCalls tagCalls_dealWith hvisits, hopened,
    Run.gather_visit Session.tagCalls tagCalls_pass hpass, List.filterMap_eq_flatMap_toList]
  simp [List.flatMap_append, List.flatMap_assoc, List.flatMap_map]

end Turn

/-- **Where a tag call of a run comes from**: from a turn. -/
theorem turn_of_tag {layout : Layout} {mode : Mode} {s t : Session}
    {result : Except Failure Unit} {told rest : List Event} {call : TagCall} {accepted : Bool}
    (hrun : (Run.sync layout mode).run s = (result, t))
    (h : t.journal = told ++ .tag call accepted :: rest) (hstart : s.journal <+: told) :
    ∃ earlier p later before w after r u rest',
      layout.visited mode s = earlier ++ p :: later ∧
      layout.turns mode p.1 p.2 = before ++ w :: after ∧
      (layout.dealWith mode p.1 w.1).run w.2 = (r, u) ∧ w.2.journal <+: told ∧
      u.journal = told ++ .tag call accepted :: rest' := by
  obtain ⟨earlier, p, later, r₁, s₁, rest₁, hpass, hrun₁, hbefore, hin₁⟩ :=
    Run.told_forM (Run.journaled_pass layout mode) hrun h hstart
  rw [pass_eq] at hrun₁
  have hworking : ∀ entries, Run.Journaled mode.tagger
      (layout.deal mode p.1 entries >>= fun _ => layout.closing mode p.1 entries) := fun entries =>
    (Run.journaled_loop mode p.1 _).bind fun _ => layout.journaled_closing mode p.1 entries
  -- The tag call is not one of the opening and not one of the closing.
  rcases Run.told_bind hworking hrun₁ hin₁ with
    ⟨r₂, s₂, rest₂, hopening, hin₂⟩ | ⟨entries, s₂, hopening, htold₂, hrun₂⟩
  · have htells : Run.Tells mode.tagger (fun _ => True) (· ≠ .tag call accepted)
        (layout.opening mode p.1) := tells_opening (by simp)
    obtain ⟨_, -, hnone⟩ := htells.split hopening hin₂ hbefore
    exact absurd rfl (hnone (.tag call accepted) (by simp))
  rcases Run.told_bind (fun _ => layout.journaled_closing mode p.1 entries) hrun₂ hin₁ with
    ⟨r₃, s₃, rest₃, hdeal, hin₃⟩ | ⟨_, s₃, -, htold₃, hclosing⟩
  · rw [deal_eq] at hdeal
    obtain ⟨before, w, after, r, u, rest', hturn, hturned⟩ :=
      Run.told_forM (fun _ => Run.journaled_execute mode p.1 _) hdeal hin₃ htold₂
    refine ⟨earlier, p, later, before, w, after, r, u, rest', hpass, ?_, hturned⟩
    rw [turns, hopening]
    exact hturn
  · obtain ⟨_, -, hclears⟩ := tells_closing.split hclosing hin₁ htold₃
    cases hclears (.tag call accepted) (by simp)

end Layout

namespace Sample

/-- A push whose tags are refused. -/
def untagged : Mode := ⟨.push, false, unwilling⟩

/-- What such a push leaves of the sample. -/
def unmarked : Session := ((Run.sync layout untagged).run (Session.start disk)).2

/-- The tag for the file of the sample. -/
def mark : TagCall := ⟨Path.ofString "guest/./a.c", RuleTable.sourceText.info.block⟩

end Sample

end GuestSync
