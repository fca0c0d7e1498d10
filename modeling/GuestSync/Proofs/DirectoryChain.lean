/-
# GuestSync.Proofs.DirectoryChain -- making a directory with those above it

Below a directory of a plain disk, making a path with all that it lies in has one
of three outcomes. It succeeds, and then the disk has directories on the whole
way and nothing else is changed. It finds a file on the way and changes nothing.
Or the path ends in a `.` segment and its last name is missing: then the
directories above that name are made and the path itself cannot be, because the
system wants what a `.` stands in to be there.
-/
import GuestSync.Proofs.PlainDisk

namespace GuestSync

/-- Whether the last segment of the path that counts is a `.`. -/
def Path.endsInHere (p : Path) : Bool := p.written.getLast? == some .here

namespace Disk

/-! ## Directories on the way to a location -/

/-- The view with directories on the whole way to a location. -/
def withWay (view : Location → Option Node) (m : Location) : Location → Option Node :=
  fun k => if k <+: m then some .directory else view k

/-- Whether no file lies on the way to a location. -/
def WayFree (d : Disk) (m : Location) : Prop :=
  ∀ k, k <+: m → d.node? k = none ∨ d.node? k = some .directory

instance (d : Disk) (m : Location) : Decidable (d.WayFree m) :=
  decidable_of_iff (∀ k ∈ m.inits, d.node? k = none ∨ d.node? k = some .directory)
    (by simp [WayFree])

/-- The disk `e` is `d` with directories on the whole way to a location. -/
structure Grown (d e : Disk) (m : Location) : Prop where
  start : e.start = d.start
  view : e.node? = withWay d.node? m

theorem grown_self {d : Disk} (hd : d.Plain) {m : Location} (hm : d.node? m = some .directory) :
    d.Grown d m := by
  refine ⟨rfl, ?_⟩
  funext k
  unfold withWay
  split
  · next hk => exact hd.directory_of_prefix_directory hk hm
  · rfl

/-- The way is there, and nothing else is changed. -/
theorem Grown.way {d e : Disk} {l m : Location} (h : d.Grown e l) (hm : m <+: l) :
    e.node? m = some .directory := by
  rw [h.view, withWay, if_pos hm]

theorem Grown.other {d e : Disk} {l m : Location} (h : d.Grown e l) (hm : ¬ m <+: l) :
    e.node? m = d.node? m := by
  rw [h.view, withWay, if_neg hm]

theorem WayFree.mono {d : Disk} {l m : Location} (h : d.WayFree m) (hl : l <+: m) : d.WayFree l :=
  fun k hk => h k (hk.trans hl)

theorem Grown.keeps {d e : Disk} {m : Location} (h : d.Grown e m) (k : Location)
    (hk : d.node? k = some .directory) : e.node? k = some .directory := by
  by_cases hp : k <+: m
  · exact h.way hp
  · rw [h.other hp, hk]

theorem Grown.wayFree {d e : Disk} {l m : Location} (h : d.Grown e l) (hm : d.WayFree m) :
    e.WayFree m := by
  intro k hk
  by_cases hp : k <+: l
  · exact .inr (h.way hp)
  · rw [h.other hp]
    exact hm k hk

/-- What lies on the way to a location below `l` is on the way to `l` or below it. -/
theorem prefix_append_cases {k l : Location} {ns : List Name} (h : k <+: l ++ ns) :
    k <+: l ∨ ∃ r, k = l ++ r ∧ r <+: ns := by
  rcases List.prefix_or_prefix_of_prefix h (List.prefix_append l ns) with hk | ⟨r, rfl⟩
  · exact .inl hk
  · exact .inr ⟨r, rfl, (List.prefix_append_right_inj l).mp h⟩

theorem Grown.plain {d e : Disk} {l : Location} {ns : List Name} (h : d.Grown e (l ++ ns))
    (hd : d.Plain) (hl : d.node? l = some .directory) (hns : ∀ n ∈ ns, Name.Proper n) :
    e.Plain := by
  refine ⟨?_, ?_, ?_⟩
  · intro k n hk
    by_cases hp : k ++ [n] <+: l ++ ns
    · exact h.way ((List.prefix_append k [n]).trans hp)
    · rw [h.other hp] at hk
      exact h.keeps k (hd.wellFormed k n hk)
  · intro k x hk
    by_cases hp : k <+: l ++ ns
    · rw [h.way hp] at hk
      exact .inl (Option.some.inj hk).symm
    · rw [h.other hp] at hk
      exact hd.kinds k x hk
  · intro k n hk
    by_cases hold : d.node? (k ++ [n]) = none
    · -- A new directory lies below `l`, so its name is one of `ns`.
      have hp : k ++ [n] <+: l ++ ns := by
        by_contra hp
        rw [h.other hp] at hk
        exact hk hold
      rcases prefix_append_cases hp with hp | ⟨r, hr, hp⟩
      · simp [hd.directory_of_prefix_directory hp hl] at hold
      · rcases List.eq_nil_or_concat r with rfl | ⟨r, n', rfl⟩
        · rw [List.append_nil] at hr
          simp [hr, hl] at hold
        · rw [List.concat_eq_append, ← List.append_assoc] at hr
          obtain ⟨-, rfl⟩ := List.append_singleton_inj.mp hr
          exact hns n (hp.subset (by simp))
    · exact hd.proper k n hold

theorem grown_put {d : Disk} (hd : d.Plain) {m : Location} {n : Name}
    (hm : d.node? m = some .directory) : d.Grown (d.put (m ++ [n]) .directory) (m ++ [n]) := by
  refine ⟨rfl, ?_⟩
  funext k
  rw [node?_put_update d (by simp), Function.update_apply, withWay]
  by_cases hk : k = m ++ [n]
  · simp [hk]
  · rw [if_neg hk]
    split
    · next hp =>
      have hp' : k <+: m := (List.prefix_concat_iff.mp hp).resolve_left hk
      exact hd.directory_of_prefix_directory hp' hm
    · rfl

/-- One directory more at the end of the way. -/
theorem Grown.snoc {d e : Disk} {m : Location} {n : Name} (h : d.Grown e m) (he : e.Plain) :
    d.Grown (e.put (m ++ [n]) .directory) (m ++ [n]) := by
  have hput : e.Grown (e.put (m ++ [n]) .directory) (m ++ [n]) :=
    grown_put he (h.way List.prefix_rfl)
  refine ⟨hput.start.trans h.start, ?_⟩
  funext k
  unfold withWay
  split
  · next hk => exact hput.way hk
  · next hk =>
    have hkm : ¬ k <+: m := fun hp => hk (hp.trans (List.prefix_append m [n]))
    rw [hput.other hk, h.other hkm]

/-- Below a directory the way is there, or it is free and its end is missing, or a
file lies on it. -/
theorem Plain.way_cases {d : Disk} (hd : d.Plain) {l : Location}
    (hl : d.node? l = some .directory) (ns : List Name) :
    d.node? (l ++ ns) = some .directory ∨
      d.WayFree (l ++ ns) ∧ d.node? (l ++ ns) = none ∨
      ∃ k c t, l <+: k ∧ k <+: l ++ ns ∧ d.node? k = some (.file c t) := by
  by_cases hfree : d.WayFree (l ++ ns)
  · rcases hfree _ List.prefix_rfl with hnone | hdir
    · exact .inr (.inl ⟨hfree, hnone⟩)
    · exact .inl hdir
  · unfold WayFree at hfree
    push Not at hfree
    obtain ⟨k, hk, hne, hnd⟩ := hfree
    obtain ⟨c, t, hfile⟩ := ((hd.node_cases k).resolve_left hne).resolve_left hnd
    refine .inr (.inr ⟨k, c, t, ?_, hk, hfile⟩)
    -- Above `l` there are only directories, so the file is not there.
    rcases prefix_append_cases hk with hp | ⟨r, rfl, -⟩
    · exact absurd (hd.directory_of_prefix_directory hp hl) hnd
    · exact List.prefix_append l r

/-! ## Making one directory -/

/-- The path leads through directories to `l` and from there by inner components. -/
structure Aims (d : Disk) (p : Path) (l : Location) (cs : List Component) : Prop where
  nonempty : p.isEmpty = false
  walked : ∃ xs, p.bareSteps = xs ++ cs.map Step.ofComponent ∧ d.Clear d.start xs ∧
    Step.goal d.start xs = l
  inside : Component.Inside cs
  directory : d.node? l = some .directory

section MakeOne

variable {d : Disk} {p : Path} {l : Location} {cs : List Component}

/-- Behind a missing name a walk goes on only if something else is still to come. -/
private theorem ends_at_missing (hd : d.Plain) (hcs : Component.Inside cs) {n : Name}
    (hl : d.node? l = some .directory) (hn : d.node? (l ++ [n]) = none) :
    (d.node? (l ++ (n :: Component.names cs).dropLast) = some .directory ∧
      (Component.name n :: cs).getLast? ≠ some .here) ↔ cs = [] := by
  constructor
  · rintro ⟨hdir, hlast⟩
    by_contra hne
    rw [List.getLast?_cons_of_ne_nil hne] at hlast
    have hnames : Component.names cs ≠ [] := by
      intro hnil
      exact hlast (hcs.getLast?_of_names_nil hne hnil)
    rw [List.dropLast_cons_of_ne_nil hnames, List.append_cons] at hdir
    have hway := hd.directory_of_prefix_directory (List.prefix_append (l ++ [n]) _) hdir
    simp [hn] at hway
  · rintro rfl
    simp [hl]

/-- A walk to something that is missing arrives only if all before it is there
and no `.` stands behind it. -/
private theorem stride_missing (hd : d.Plain) (hcs : Component.Inside cs)
    (hl : d.node? l = some .directory) (hfree : d.WayFree (l ++ Component.names cs))
    (hnone : d.node? (l ++ Component.names cs) = none) :
    d.stride .taken l (cs.map Step.ofComponent) =
      if d.node? (l ++ (Component.names cs).dropLast) = some .directory ∧
          cs.getLast? ≠ some .here then
        .arrived (l ++ Component.names cs)
      else .blocked .notFound := by
  induction hcs generalizing l with
  | nil => simp [hl] at hnone
  | @here r hr ih =>
    have hr0 : r ≠ [] := by
      rintro rfl
      simp [hl] at hnone
    rw [List.getLast?_cons_of_ne_nil hr0]
    exact ih hl hfree hnone
  | @name n r hr ih =>
    rw [Component.names_name]
    rw [Component.names_name, List.append_cons] at hfree hnone
    rw [List.map_cons, Step.ofComponent, stride, if_neg (by simp)]
    rcases hfree (l ++ [n]) (List.prefix_append _ _) with hn | hn
    · rw [hn, if_congr (ends_at_missing hd hr hl hn) rfl rfl]
      dsimp only
      by_cases hr0 : r = []
      · simp [hr0]
      · simp [hr0]
    · -- The directory is there, so what is missing lies further on.
      rw [hn]
      dsimp only
      have hnr : Component.names r ≠ [] := by
        intro hnil
        rw [hnil, List.append_nil, hn] at hnone
        simp at hnone
      have hr0 : r ≠ [] := by
        rintro rfl
        exact hnr rfl
      rw [ih hn hfree hnone, List.dropLast_cons_of_ne_nil hnr, List.getLast?_cons_of_ne_nil hr0,
        List.append_cons l n (Component.names r), List.append_cons l n (Component.names r).dropLast]

/-- A walk that has a file on its way is stopped there or ends there. -/
private theorem stride_file (hd : d.Plain) (hcs : Component.Inside cs) {k : Location}
    (hlk : l <+: k) (hk : k <+: l ++ Component.names cs) {c : Bytes} {t : Option Bytes}
    (hfile : d.node? k = some (.file c t)) (hl : d.node? l = some .directory) :
    d.stride .taken l (cs.map Step.ofComponent) = .blocked .notDirectory ∨
      ∃ m, d.stride .taken l (cs.map Step.ofComponent) = .arrived m ∧ d.node? m ≠ none := by
  induction hcs generalizing l with
  | nil => exact .inr ⟨l, rfl, by simp [hl]⟩
  | here _ ih => exact ih hlk hk hl
  | @name n r _ ih =>
    rw [Component.names_name, List.append_cons] at hk
    have hne : l ≠ k := by
      rintro rfl
      simp [hl] at hfile
    have hlk' : l ++ [n] <+: k := by
      rcases prefix_append_cases hk with hp | ⟨s, rfl, -⟩
      · rcases List.prefix_concat_iff.mp hp with rfl | hp
        · exact List.prefix_rfl
        · exact absurd (hlk.eq_of_length_le hp.length_le) hne
      · exact List.prefix_append _ _
    rw [List.map_cons, Step.ofComponent, stride, if_neg (by simp)]
    by_cases heq : l ++ [n] = k
    · rw [heq, hfile]
      dsimp only
      split
      · exact .inr ⟨k, rfl, by simp [hfile]⟩
      · exact .inl rfl
    · have hn : d.node? (l ++ [n]) = some .directory :=
        hd.directory_of_prefix hlk' (by simp [hfile]) heq
      rw [hn]
      exact ih hlk' hk hn

/-- The walk of a path that aims below `l` is the walk of its components there. -/
private theorem Aims.stride (h : d.Aims p l cs) :
    d.stride .taken d.start p.bareSteps = d.stride .taken l (cs.map Step.ofComponent) := by
  obtain ⟨xs, hsteps, hclear, hgoal⟩ := h.walked
  by_cases hcs : cs = []
  · subst hcs
    rw [hsteps, List.map_nil, List.append_nil, stride_of_clear hclear (by simp), hgoal]
    rfl
  · rw [hsteps, stride_append hclear (by simpa using hcs) (by simp), hgoal]

private theorem Aims.goal (h : d.Aims p l cs) :
    Step.goal d.start p.bareSteps = l ++ Component.names cs := by
  obtain ⟨xs, hsteps, -, hgoal⟩ := h.walked
  rw [hsteps, Step.goal_append, hgoal, Step.goal_inside h.inside]

theorem Aims.isDirectory_iff (hd : d.Plain) (h : d.Aims p l cs) :
    d.isDirectory p = true ↔ d.node? (l ++ Component.names cs) = some .directory := by
  rw [Disk.isDirectory_iff]
  constructor
  · rintro ⟨m, hm⟩
    have hopens := hd.opens hm
    rw [← h.goal, hopens.goal]
    exact hm.2
  · intro hdir
    obtain ⟨xs, hsteps, hclear, hgoal⟩ := h.walked
    refine ⟨_, Opens.directoryAt ⟨h.nonempty, ?_, h.goal, hdir⟩⟩
    rw [hsteps, clear_append, hgoal]
    exact ⟨hclear, hd.clear_inside h.inside hdir⟩

private theorem Aims.bareSteps_ne_nil (h : d.Aims p l cs) : p.bareSteps ≠ [] := by
  simp [Path.bareSteps, Path.written_ne_nil h.nonempty]

private theorem Aims.make_of_arrived (h : d.Aims p l cs) {m : Location}
    (hs : d.stride .taken l (cs.map Step.ofComponent) = .arrived m) :
    d.makeDirectory p =
      match d.node? m with
      | none => .ok (d.put m .directory)
      | some _ => .error .exists := by
  rw [makeDirectory, make, locate_of_arrived h.bareSteps_ne_nil (h.stride.trans hs)]
  rfl

private theorem Aims.make_of_blocked (h : d.Aims p l cs) {e : OsError}
    (hs : d.stride .taken l (cs.map Step.ofComponent) = .blocked e) :
    d.makeDirectory p = .error e := by
  rw [makeDirectory, make, locate_of_blocked h.bareSteps_ne_nil (h.stride.trans hs)]
  rfl

theorem Aims.make_exists (hd : d.Plain) (h : d.Aims p l cs)
    (hdir : d.node? (l ++ Component.names cs) = some .directory) :
    d.makeDirectory p = .error .exists := by
  have hs : d.stride .taken l (cs.map Step.ofComponent) = _ :=
    stride_of_clear (hd.clear_inside h.inside hdir) (by simp)
  rw [Step.goal_inside h.inside] at hs
  rw [h.make_of_arrived hs, hdir]

theorem Aims.make_missing (hd : d.Plain) (h : d.Aims p l cs)
    (hfree : d.WayFree (l ++ Component.names cs))
    (hnone : d.node? (l ++ Component.names cs) = none) :
    d.makeDirectory p =
      if d.node? (l ++ (Component.names cs).dropLast) = some .directory ∧
          cs.getLast? ≠ some .here then
        .ok (d.put (l ++ Component.names cs) .directory)
      else .error .notFound := by
  have hs := stride_missing hd h.inside h.directory hfree hnone
  split
  · next hc =>
    rw [if_pos hc] at hs
    rw [h.make_of_arrived hs, hnone]
  · next hc =>
    rw [if_neg hc] at hs
    exact h.make_of_blocked hs

theorem Aims.make_file (hd : d.Plain) (h : d.Aims p l cs) {k : Location} (hlk : l <+: k)
    (hk : k <+: l ++ Component.names cs) {c : Bytes} {t : Option Bytes}
    (hfile : d.node? k = some (.file c t)) :
    ∃ e, e ≠ .notFound ∧ d.makeDirectory p = .error e := by
  rcases stride_file hd h.inside hlk hk hfile h.directory with hs | ⟨m, hs, hm⟩
  · exact ⟨_, by simp, h.make_of_blocked hs⟩
  · refine ⟨.exists, by simp, ?_⟩
    rw [h.make_of_arrived hs]
    cases hx : d.node? m with
    | none => exact absurd hx hm
    | some x => rfl

end MakeOne

/-! ## Making the whole way -/

section Ladder

variable {d : Disk} {l : Location} {pc : List Component}

/-- Components that lead through directories to `l`, as those of an existing root do. -/
structure Footing (d : Disk) (l : Location) (pc : List Component) : Prop where
  ne_nil : pc ≠ []
  spellable : ∀ ns : List Name, (∀ n ∈ ns, Name.Proper n) →
    Path.Spellable (pc ++ ns.map .name)
  clear : d.Clear d.start (pc.map Step.ofComponent)
  goal : Step.goal d.start (pc.map Step.ofComponent) = l
  directory : d.node? l = some .directory

theorem Footing.aims (h : d.Footing l pc) {ns : List Name} (hns : ∀ n ∈ ns, Name.Proper n) :
    d.Aims (Path.ofComponents (pc ++ ns.map .name)) l (ns.map .name) := by
  have hne : pc ++ ns.map .name ≠ [] := by simp [h.ne_nil]
  have hw := Path.written_ofComponents hne (h.spellable ns hns)
  refine ⟨Path.isEmpty_ofComponents hne (h.spellable ns hns),
    ⟨pc.map Step.ofComponent, ?_, h.clear, h.goal⟩, Component.inside_names ns, h.directory⟩
  rw [Path.bareSteps, hw, List.map_append]

theorem makeFirst_directory {p : Path} {above : List Path} {cs : List Component}
    (hd : d.Plain) (h : d.Aims p l cs)
    (hdir : d.node? (l ++ Component.names cs) = some .directory) :
    d.makeFirst (p :: above) = (d, .ok ()) := by
  rw [makeFirst, h.make_exists hd hdir]
  simp [(h.isDirectory_iff hd).mpr hdir]

theorem Aims.mono {e : Disk} {p : Path} {cs : List Component} (h : d.Aims p l cs)
    (hstart : e.start = d.start)
    (hkeep : ∀ m, d.node? m = some .directory → e.node? m = some .directory) :
    e.Aims p l cs := by
  obtain ⟨xs, hsteps, hclear, hgoal⟩ := h.walked
  exact ⟨h.nonempty, ⟨xs, hsteps, by rw [hstart]; exact hclear.mono hkeep, by rw [hstart, hgoal]⟩,
    h.inside, hkeep l h.directory⟩

/-- A file on the way ends it, and nothing is made. -/
theorem makeFirst_obstructed {p : Path} {above : List Path} {cs : List Component} (hd : d.Plain)
    (h : d.Aims p l cs) {k : Location} (hlk : l <+: k) (hk : k <+: l ++ Component.names cs)
    {c : Bytes} {t : Option Bytes} (hfile : d.node? k = some (.file c t)) :
    ∃ e, d.makeFirst (p :: above) = (d, .error e) := by
  obtain ⟨e, hne, hmake⟩ := h.make_file hd hlk hk hfile
  have hno : d.isDirectory p = false := by
    rw [← Bool.not_eq_true, h.isDirectory_iff hd]
    intro hdir
    rw [hd.directory_of_prefix_directory hk hdir] at hfile
    simp at hfile
  refine ⟨e, ?_⟩
  rw [makeFirst, hmake]
  cases e with
  | notFound => exact absurd rfl hne
  | _ => simp [hno]

/-- One more name, once the way to it can be made. With a `.` behind the name it
cannot be made; otherwise it is made, at once or on the second try. -/
theorem makeFirst_missing (hd : d.Plain) {p : Path} {above : List Path} {cs : List Component}
    (h : d.Aims p l cs) {ms : List Name} {n : Name} (hcs : Component.names cs = ms ++ [n])
    (hms : ∀ k ∈ ms, Name.Proper k) (hfree : d.WayFree (l ++ (ms ++ [n])))
    (hnone : d.node? (l ++ (ms ++ [n])) = none) {e : Disk}
    (habove : d.makeFirst above = (e, .ok ())) (he : d.Grown e (l ++ ms)) :
    if cs.getLast? = some .here then d.makeFirst (p :: above) = (e, .error .notFound)
    else ∃ e', d.makeFirst (p :: above) = (e', .ok ()) ∧ d.Grown e' (l ++ (ms ++ [n])) := by
  have hep : e.Plain := he.plain hd h.directory hms
  have heaims : e.Aims p l cs := h.mono he.start he.keeps
  have hnotway : ¬ l ++ (ms ++ [n]) <+: l ++ ms := by
    intro hp
    simpa using hp.length_le
  have henone : e.node? (l ++ (ms ++ [n])) = none := by rw [he.other hnotway, hnone]
  -- The first try is made on `d`, the second on `e`, which has the way.
  have hfirst := h.make_missing hd (by rwa [hcs]) (by rwa [hcs])
  have hsecond := heaims.make_missing hep (by rw [hcs]; exact he.wayFree hfree) (by rwa [hcs])
  rw [hcs, List.dropLast_concat] at hfirst hsecond
  split
  · next hhere =>
    have hno : e.isDirectory p = false := by
      rw [← Bool.not_eq_true, heaims.isDirectory_iff hep, hcs, henone]
      simp
    rw [if_neg (by simp [hhere])] at hfirst hsecond
    simp only [makeFirst, hfirst, habove, hsecond, hno]
    rfl
  · next hhere =>
    rw [if_pos ⟨he.way List.prefix_rfl, hhere⟩] at hsecond
    by_cases hdir : d.node? (l ++ ms) = some .directory
    · rw [if_pos ⟨hdir, hhere⟩] at hfirst
      refine ⟨d.put (l ++ (ms ++ [n])) .directory, by rw [makeFirst, hfirst], ?_⟩
      rw [← List.append_assoc]
      exact grown_put hd hdir
    · rw [if_neg fun hc => hdir hc.1] at hfirst
      refine ⟨e.put (l ++ (ms ++ [n])) .directory, ?_, ?_⟩
      · rw [makeFirst, hfirst]
        simp only [habove, hsecond]
      · rw [← List.append_assoc]
        exact he.snoc hep

/-- The directories that a path lies in, one name at a time. -/
theorem beginnings_concat (hpc : pc ≠ []) (ms : List Name) (n : Name) :
    Path.beginnings (pc ++ (ms ++ [n]).map .name) =
      (pc ++ ms.map .name) :: Path.beginnings (pc ++ ms.map .name) := by
  rw [List.map_append, ← List.append_assoc]
  exact Path.beginnings_append_singleton (by simp [hpc]) _

/-- With no file on it, the whole way below an existing root can be made. -/
theorem makeFirst_ladder (hd : d.Plain) (h : d.Footing l pc) (ns : List Name)
    (hns : ∀ n ∈ ns, Name.Proper n) (hfree : d.WayFree (l ++ ns)) :
    ∃ e, d.makeFirst (((pc ++ ns.map .name) :: Path.beginnings (pc ++ ns.map .name)).map
        Path.ofComponents) = (e, .ok ()) ∧ d.Grown e (l ++ ns) := by
  induction ns using List.reverseRecOn with
  | nil =>
    have hdir : d.node? (l ++ Component.names (([] : List Name).map .name)) = some .directory := by
      simpa using h.directory
    exact ⟨d, makeFirst_directory hd (h.aims (by simp)) hdir,
      grown_self hd (by simpa using h.directory)⟩
  | append_singleton ms n ih =>
    have hms : ∀ n ∈ ms, Name.Proper n := by
      intro k hk
      exact hns k (by simp [hk])
    have haims := h.aims hns
    have hnames : Component.names ((ms ++ [n]).map .name) = ms ++ [n] :=
      Component.names_map_name (ms ++ [n])
    -- If the last name is missing then the way to it is made first.
    rcases hfree _ List.prefix_rfl with hnone | hdir
    · have hway : l ++ ms <+: l ++ (ms ++ [n]) :=
        (List.prefix_append_right_inj l).mpr (List.prefix_append ms [n])
      obtain ⟨e, hmake, he⟩ := ih hms (hfree.mono hway)
      have hstep := makeFirst_missing hd haims hnames hms hfree hnone hmake he
      rw [if_neg (by simp)] at hstep
      rw [List.map_cons, beginnings_concat h.ne_nil]
      exact hstep
    · exact ⟨d, makeFirst_directory hd haims (by rwa [hnames]), grown_self hd hdir⟩

end Ladder

/-! ## Making a subdirectory of a root -/

section Subdirectory

variable {d : Disk} {p q : Path} {l : Location}

theorem goal_filter_here (cs : List Component) (m : Location) :
    Step.goal m ((cs.filter (· != .here)).map Step.ofComponent) =
      Step.goal m (cs.map Step.ofComponent) := by
  induction cs generalizing m with
  | nil => rfl
  | cons c r ih =>
    cases c with
    | here => rw [List.filter_cons_of_neg (by simp)]; exact ih m
    | _ => rw [List.filter_cons_of_pos (by simp)]; exact ih _

theorem Clear.filter_here {cs : List Component} {m : Location}
    (h : d.Clear m (cs.map Step.ofComponent)) :
    d.Clear m ((cs.filter (· != .here)).map Step.ofComponent) := by
  induction cs generalizing m with
  | nil => trivial
  | cons c r ih =>
    cases c with
    | here => rw [List.filter_cons_of_neg (by simp)]; exact ih h
    | name n => rw [List.filter_cons_of_pos (by simp)]; exact ⟨h.1, ih h.2⟩
    | _ => rw [List.filter_cons_of_pos (by simp)]; exact ih (m := _) h

theorem Opens.footing (h : d.Opens p l) : d.Footing l p.components := by
  have hw := Path.written_ne_nil h.nonempty
  obtain ⟨c, r, hcr⟩ : ∃ c r, p.written = c :: r := List.exists_cons_of_ne_nil hw
  have hcomp : p.components = c :: r.filter (· != .here) := by simp [Path.components, hcr]
  have hbare : p.bareSteps = [Step.ofComponent c] ++ r.map Step.ofComponent := by
    simp [Path.bareSteps, hcr]
  have hclear := h.clear
  have hgoal := h.goal
  rw [hbare, clear_append] at hclear
  rw [hbare, Step.goal_append] at hgoal
  have hmap : p.components.map Step.ofComponent =
      [Step.ofComponent c] ++ (r.filter (· != .here)).map Step.ofComponent := by
    simp [hcomp]
  refine ⟨by simp [hcomp], ?_, ?_, ?_, h.directory⟩
  · intro ns hns
    have hs := Path.spellable_components p
    refine ⟨?_, ?_⟩
    · intro n hn
      rcases List.mem_append.mp hn with hn | hn
      · exact hs.1 n hn
      · exact hns n (by simpa using hn)
    · rw [hcomp] at hs ⊢
      simpa using hs.2
  · rw [hmap, clear_append]
    exact ⟨hclear.1, hclear.2.filter_here⟩
  · rw [hmap, Step.goal_append, goal_filter_here, hgoal]

theorem Opens.aims_join (h : d.Opens p l) (hq : q.Inner) :
    d.Aims (p.join q) l q.written :=
  ⟨Path.isEmpty_join h.nonempty hq, ⟨p.bareSteps, Path.bareSteps_join h.nonempty hq, h.clear, h.goal⟩,
    hq.inside, h.directory⟩

theorem Opens.isDirectory_join (h : d.Opens p l) (hd : d.Plain) (hq : q.Inner) :
    d.isDirectory (p.join q) = true ↔ d.node? (l ++ q.names) = some .directory :=
  (h.aims_join hq).isDirectory_iff hd

/-- **Making a subdirectory of an existing root**, with what comes of it in each
case. `ms` is all of its names but the last. -/
inductive Making (d : Disk) (l : Location) (q : Path) : Disk → Except OsError Unit → Prop
  /-- Nothing stands in the way: the whole way is there afterwards. -/
  | made {e : Disk} (free : d.WayFree (l ++ q.names))
      (seated : q.endsInHere = true → d.node? (l ++ q.names) = some .directory)
      (grown : d.Grown e (l ++ q.names)) : Making d l q e (.ok ())
  /-- A file stands in the way. -/
  | obstructed {e : OsError} (notFree : ¬ d.WayFree (l ++ q.names)) : Making d l q d (.error e)
  /-- The path ends in `.` behind a name that is missing. -/
  | unseated {e : Disk} (free : d.WayFree (l ++ q.names)) (here : q.endsInHere = true)
      (ms : List Name) (n : Name)
      (names : q.names = ms ++ [n]) (missing : d.node? (l ++ q.names) = none)
      (grown : d.Grown e (l ++ ms)) : Making d l q e (.error .notFound)

/-- The last name of a subdirectory whose way is free. -/
private theorem making_missing (hd : d.Plain) (h : d.Opens p l) (hq : q.Inner) {ms : List Name}
    {n : Name} (hnames : q.names = ms ++ [n]) (hfree : d.WayFree (l ++ q.names))
    (hnone : d.node? (l ++ q.names) = none) :
    ∃ e answer, d.makeFirst (p.join q :: (Path.beginnings (p.components ++ q.names.map .name)).map
        Path.ofComponents) = (e, answer) ∧ Making d l q e answer := by
  have hms : ∀ k ∈ ms, Name.Proper k := by
    intro k hk
    exact Path.proper_of_mem_names (p := q) (by simp [hnames, hk])
  have hway : l ++ ms <+: l ++ q.names := by
    rw [hnames]
    exact (List.prefix_append_right_inj l).mpr (List.prefix_append ms [n])
  obtain ⟨e, hmake, he⟩ := makeFirst_ladder hd h.footing ms hms (hfree.mono hway)
  have hstep := makeFirst_missing hd (h.aims_join hq) hnames hms (by rwa [← hnames])
    (by rwa [← hnames]) hmake he
  rw [hnames, beginnings_concat h.footing.ne_nil]
  split at hstep
  · next hhere =>
    exact ⟨e, _, hstep, .unseated hfree (by simp [Path.endsInHere, hhere]) ms n hnames hnone he⟩
  · next hhere =>
    obtain ⟨e', hstep, he'⟩ := hstep
    have hseated : q.endsInHere = true → d.node? (l ++ q.names) = some .directory := by
      intro hend
      rw [Path.endsInHere, beq_iff_eq] at hend
      exact absurd hend hhere
    exact ⟨e', _, hstep, .made hfree hseated (by rwa [hnames])⟩

theorem making (hd : d.Plain) (h : d.Opens p l) (hq : q.Inner) :
    Making d l q (d.makeDirectories (p.join q)).1 (d.makeDirectories (p.join q)).2 := by
  have haims := h.aims_join hq
  rw [makeDirectories, if_neg (by simp [haims.nonempty]), Path.enclosing,
    Path.components_join h.nonempty hq]
  rcases hd.way_cases h.directory q.names with hdir | ⟨hfree, hnone⟩ | ⟨k, c, t, hlk, hk, hfile⟩
  · rw [makeFirst_directory hd haims hdir]
    have hfree : d.WayFree (l ++ q.names) := by
      intro k hk
      exact .inr (hd.directory_of_prefix_directory hk hdir)
    exact .made hfree (fun _ => hdir) (grown_self hd hdir)
  · rcases List.eq_nil_or_concat q.names with hnil | ⟨ms, n, hnames⟩
    · rw [hnil, List.append_nil, h.directory] at hnone
      simp at hnone
    · rw [List.concat_eq_append] at hnames
      obtain ⟨e, answer, hmake, hmaking⟩ := making_missing hd h hq hnames hfree hnone
      rw [hmake]
      exact hmaking
  · obtain ⟨e, hmake⟩ := makeFirst_obstructed hd haims hlk hk hfile
    rw [hmake]
    apply Making.obstructed
    intro hfree
    rcases hfree k hk with hnone | hdir
    · simp [hnone] at hfile
    · simp [hdir] at hfile

end Subdirectory

end Disk

end GuestSync
