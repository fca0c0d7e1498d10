/-
# GuestSync.Proofs.PathMaking -- making a path of which nothing need be there

Making a directory goes along the components of its path and makes whatever is
missing on the way, names behind a `..` included. As long as no regular file is on
the way there is one thing that stops it: the system does not make a directory
under a name with a `.` segment behind it. So a path that ends in such a segment
has to be there already, or lie on the way to what its own components before the
last one lead to. The directories that lie on the way are made in either case.

This asks for the directory the program runs in, from which a path is looked up, and
excludes a file on the way. Where a root is known to open instead, the making of a path
below it (`Disk.making`) needs neither.
-/
import GuestSync.Proofs.EntryWork

namespace GuestSync

/-! ## The way along some components -/

/-- The locations on the way along some components: where they lead one after the
other, and what those places lie in. -/
def OnWay (l : Location) (cs : List Component) (m : Location) : Prop :=
  ∃ xs, xs ≠ [] ∧ xs <+: cs ∧ m <+: Step.goal l (xs.map Step.ofComponent)

section OnWay

variable {l m k : Location} {cs ds : List Component} {c : Component}

theorem OnWay.mono (h : OnWay l cs m) (hcs : cs <+: ds) : OnWay l ds m := by
  obtain ⟨xs, hne, hxs, hm⟩ := h
  exact ⟨xs, hne, hxs.trans hcs, hm⟩

theorem OnWay.above (h : OnWay l cs m) (hk : k <+: m) : OnWay l cs k := by
  obtain ⟨xs, hne, hxs, hm⟩ := h
  exact ⟨xs, hne, hxs, hk.trans hm⟩

theorem onWay_of_prefix_goal (hne : cs ≠ []) (hm : m <+: Step.goal l (cs.map Step.ofComponent)) :
    OnWay l cs m :=
  ⟨cs, hne, List.prefix_rfl, hm⟩

theorem onWay_concat :
    OnWay l (cs ++ [c]) m ↔
      OnWay l cs m ∨ m <+: Step.goal l ((cs ++ [c]).map Step.ofComponent) := by
  constructor
  · rintro ⟨xs, hne, hxs, hm⟩
    rcases List.prefix_concat_iff.mp hxs with rfl | hxs
    · exact .inr hm
    · exact .inl ⟨xs, hne, hxs, hm⟩
  · rintro (h | h)
    · exact h.mono (List.prefix_append cs [c])
    · exact onWay_of_prefix_goal (by simp) h

theorem OnWay.cons (h : OnWay (Step.goal l [Step.ofComponent c]) cs m) : OnWay l (c :: cs) m := by
  obtain ⟨xs, -, hxs, hm⟩ := h
  refine ⟨c :: xs, by simp, by simpa using hxs, ?_⟩
  rw [List.map_cons, ← List.singleton_append, Step.goal_append]
  exact hm

theorem onWay_head : OnWay l (c :: cs) (Step.goal l [Step.ofComponent c]) :=
  ⟨[c], by simp, by simp, List.prefix_rfl⟩

theorem goal_concat_name (l : Location) (cs : List Component) (n : Name) :
    Step.goal l ((cs ++ [Component.name n]).map Step.ofComponent) =
      Step.goal l (cs.map Step.ofComponent) ++ [n] := by
  rw [List.map_append, Step.goal_append]
  rfl

/-- The place where components lead has the names of the start and their own. -/
theorem mem_goal {n : Name} (h : n ∈ Step.goal l (cs.map Step.ofComponent)) :
    n ∈ l ∨ .name n ∈ cs := by
  induction cs generalizing l with
  | nil => exact .inl h
  | cons c r ih =>
    cases c with
    | root => exact .inr (by simpa using (ih (l := []) h).resolve_left (by simp))
    | here => exact (ih (l := l) h).imp_right (List.mem_cons_of_mem _)
    | up =>
      refine (ih (l := l.dropLast) h).imp ?_ (List.mem_cons_of_mem _)
      exact List.mem_of_mem_dropLast
    | name k =>
      rcases ih (l := l ++ [k]) h with hn | hn
      · rcases List.mem_append.mp hn with hn | hn
        · exact .inl hn
        · rw [List.mem_singleton.mp hn]
          exact .inr (by simp)
      · exact .inr (List.mem_cons_of_mem _ hn)

end OnWay

namespace Disk

variable {d e : Disk} {l m : Location} {cs ms : List Component} {c : Component}

/-- Whether no regular file is on the way along the components. -/
def FileFree (d : Disk) (l : Location) (cs : List Component) : Prop :=
  ∀ m, OnWay l cs m → contentOf (d.node? m) = none

theorem fileFree_iff :
    d.FileFree l cs ↔ ∀ xs ∈ cs.inits, xs ≠ [] →
      ∀ m ∈ (Step.goal l (xs.map Step.ofComponent)).inits, contentOf (d.node? m) = none := by
  simp only [FileFree, OnWay, List.mem_inits]
  constructor
  · intro h xs hxs hne m hm
    exact h m ⟨xs, hne, hxs, hm⟩
  · rintro h m ⟨xs, hne, hxs, hm⟩
    exact h xs hxs hne m hm

instance : Decidable (d.FileFree l cs) := decidable_of_iff _ fileFree_iff.symm

theorem FileFree.mono {ds : List Component} (h : d.FileFree l ds) (hcs : cs <+: ds) :
    d.FileFree l cs :=
  fun m hm => h m (hm.mono hcs)

theorem clear_of_onWay (h : ∀ m, OnWay l cs m → d.node? m = some .directory) :
    d.Clear l (cs.map Step.ofComponent) := by
  induction cs generalizing l with
  | nil => trivial
  | cons c r ih =>
    have hr := ih (l := Step.goal l [Step.ofComponent c]) fun m hm => h m hm.cons
    cases c with
    | name n => exact ⟨h _ onWay_head, hr⟩
    | _ => exact hr

/-- Where a clear way leads from a directory there is one. -/
theorem Clear.directory (hd : d.Plain) (hl : d.node? l = some .directory) {xs : List Step}
    (h : d.Clear l xs) : d.node? (Step.goal l xs) = some .directory := by
  induction xs generalizing l with
  | nil => exact hl
  | cons x r ih =>
    cases x with
    | root => exact ih d.node?_root h
    | here => exact ih hl h
    | slash => exact ih hl h
    | up => exact ih (hd.directory_of_prefix_directory (List.dropLast_prefix l) hl) h
    | name n => exact ih h.1 h.2

theorem Clear.onWay (hd : d.Plain) (hl : d.node? l = some .directory)
    (h : d.Clear l (cs.map Step.ofComponent)) (hm : OnWay l cs m) :
    d.node? m = some .directory := by
  obtain ⟨xs, -, ⟨ys, rfl⟩, hm⟩ := hm
  rw [List.map_append, clear_append] at h
  exact hd.directory_of_prefix_directory hm (h.1.directory hd hl)

/-- The last step of a clear way. -/
theorem clear_concat :
    d.Clear l ((ms ++ [c]).map Step.ofComponent) ↔
      d.Clear l (ms.map Step.ofComponent) ∧
        ∀ n, c = .name n →
          d.node? (Step.goal l ((ms ++ [c]).map Step.ofComponent)) = some .directory := by
  rw [List.map_append, clear_append, Step.goal_append]
  cases c <;> simp [Clear, Step.goal, Step.ofComponent]

/-- What is neither a file nor a directory is not there. -/
theorem Plain.node?_eq_none (hd : d.Plain) (hfile : contentOf (d.node? m) = none)
    (hdir : d.node? m ≠ some .directory) : d.node? m = none := by
  rcases hd.node_cases m with hx | hx | ⟨b, t, hx⟩
  · exact hx
  · exact absurd hx hdir
  · simp [hx, contentOf] at hfile

/-- A way without files is clear, or there is a first name on it that is missing. -/
theorem FileFree.clear_or_missing (hd : d.Plain) (h : d.FileFree l cs) :
    d.Clear l (cs.map Step.ofComponent) ∨
      ∃ xs n ys, cs = xs ++ .name n :: ys ∧ d.Clear l (xs.map Step.ofComponent) ∧
        d.node? (Step.goal l (xs.map Step.ofComponent) ++ [n]) = none := by
  induction cs using List.reverseRecOn with
  | nil => exact .inl trivial
  | append_singleton ms c ih =>
    rcases ih (h.mono (List.prefix_append ms [c])) with hc | ⟨xs, n, ys, rfl, hc, hn⟩
    · rw [clear_concat]
      by_cases hlast : ∀ n, c = .name n →
          d.node? (Step.goal l ((ms ++ [c]).map Step.ofComponent)) = some .directory
      · exact .inl ⟨hc, hlast⟩
      · push Not at hlast
        obtain ⟨n, rfl, hnot⟩ := hlast
        have hno := h _ (onWay_of_prefix_goal (by simp) List.prefix_rfl)
        rw [goal_concat_name] at hnot hno
        exact .inr ⟨ms, n, [], rfl, hc, hd.node?_eq_none hno hnot⟩
    · exact .inr ⟨xs, n, ys ++ [c], by simp, hc, hn⟩

/-! ## Directories on the whole way -/

/-- The disk `e` is `d` with directories on the whole way along some components. -/
structure Laid (d e : Disk) (cs : List Component) : Prop where
  start : e.start = d.start
  way : ∀ m, OnWay d.start cs m → e.node? m = some .directory
  others : ∀ m, ¬ OnWay d.start cs m → e.node? m = d.node? m

theorem Laid.keeps (h : d.Laid e cs) (m : Location) (hm : d.node? m = some .directory) :
    e.node? m = some .directory := by
  by_cases hway : OnWay d.start cs m
  · exact h.way m hway
  · rw [h.others m hway, hm]

theorem Laid.no_content (h : d.Laid e cs) (hm : contentOf (d.node? m) = none) :
    contentOf (e.node? m) = none := by
  by_cases hway : OnWay d.start cs m
  · rw [h.way m hway]
    rfl
  · rwa [h.others m hway]

theorem Laid.clear (h : d.Laid e cs) : e.Clear e.start (cs.map Step.ofComponent) := by
  rw [h.start]
  exact clear_of_onWay h.way

theorem Laid.plain (h : d.Laid e cs) (hd : d.Plain) (hstart : d.node? d.start = some .directory)
    (hcs : ∀ n, .name n ∈ cs → Name.Proper n) : e.Plain := by
  refine ⟨?_, ?_, ?_⟩
  · intro m n hm
    by_cases hway : OnWay d.start cs (m ++ [n])
    · exact h.way m (hway.above (List.prefix_append m [n]))
    · rw [h.others _ hway] at hm
      exact h.keeps m (hd.wellFormed m n hm)
  · intro m x hm
    by_cases hway : OnWay d.start cs m
    · rw [h.way m hway] at hm
      exact .inl (Option.some.inj hm).symm
    · rw [h.others m hway] at hm
      exact hd.kinds m x hm
  · intro m n hm
    by_cases hway : OnWay d.start cs (m ++ [n])
    · -- The name is one of the components or stands in the start of the walk.
      obtain ⟨xs, -, hxs, hp⟩ := hway
      rcases mem_goal (hp.subset (List.mem_append_right m (List.mem_singleton_self n))) with hn | hn
      · obtain ⟨a, b, hab⟩ := List.append_of_mem hn
        apply hd.proper a n
        rw [hd.directory_of_prefix_directory ⟨b, by rw [hab]; simp⟩ hstart]
        simp
      · exact hcs n (hxs.subset hn)
    · rw [h.others _ hway] at hm
      exact hd.proper m n hm

theorem laid_self (hd : d.Plain) (hstart : d.node? d.start = some .directory)
    (h : d.Clear d.start (cs.map Step.ofComponent)) : d.Laid d cs :=
  ⟨rfl, fun _ hm => h.onWay hd hstart hm, fun _ _ => rfl⟩

/-- A last step to a directory that is there. -/
theorem Laid.concat (h : d.Laid e ms) (he : e.Plain)
    (hgoal : e.node? (Step.goal d.start ((ms ++ [c]).map Step.ofComponent)) = some .directory) :
    d.Laid e (ms ++ [c]) := by
  refine ⟨h.start, ?_, ?_⟩
  · intro m hm
    rcases onWay_concat.mp hm with hm | hm
    · exact h.way m hm
    · exact he.directory_of_prefix_directory hm hgoal
  · intro m hm
    exact h.others m fun hway => hm (hway.mono (List.prefix_append ms [c]))

/-- A last name whose directory is put there. -/
theorem Laid.put (h : d.Laid e ms) (he : e.Plain) (n : Name)
    (hbefore : e.node? (Step.goal d.start (ms.map Step.ofComponent)) = some .directory) :
    d.Laid (e.put (Step.goal d.start (ms.map Step.ofComponent) ++ [n]) .directory)
      (ms ++ [Component.name n]) := by
  have hgrown := grown_put he (n := n) hbefore
  refine ⟨hgrown.start.trans h.start, ?_, ?_⟩
  · intro m hm
    rw [onWay_concat, goal_concat_name] at hm
    rcases hm with hm | hm
    · exact hgrown.keeps m (h.way m hm)
    · exact hgrown.way hm
  · intro m hm
    rw [onWay_concat, goal_concat_name, not_or] at hm
    rw [hgrown.other hm.2, h.others m hm.1]

end Disk

/-! ## Components and what is written -/

/-- Before the last component of a path the other ones are written, and behind it
only `.` segments. -/
theorem Path.written_split {p : Path} {ms : List Component} {c : Component}
    (h : p.components = ms ++ [c]) :
    ∃ ws hs, p.written = ws ++ c :: hs ∧ (∀ x ∈ hs, x = .here) ∧
      ws.filter (· != .here) = ms.filter (· != .here) := by
  have hheres : ∀ {r : List Component}, r.filter (· != .here) = [] → ∀ x ∈ r, x = .here := by
    intro r hr x hx
    simpa using List.filter_eq_nil_iff.mp hr x hx
  cases hw : p.written with
  | nil =>
    rw [components, hw] at h
    simp at h
  | cons c₀ r =>
    rw [components, hw] at h
    dsimp only at h
    cases ms with
    | nil =>
      obtain ⟨rfl, hr⟩ := List.cons.inj h
      exact ⟨[], r, rfl, hheres hr, rfl⟩
    | cons m ms =>
      obtain ⟨rfl, hr⟩ := List.cons.inj h
      obtain ⟨r₁, r₂, rfl, hr₁, hr₂⟩ := List.filter_eq_append_iff.mp hr
      obtain ⟨xs, ys, rfl, hxs, -, hys⟩ := List.filter_eq_cons_iff.mp hr₂
      refine ⟨c₀ :: r₁ ++ xs, ys, by simp, hheres hys, ?_⟩
      have hxs : xs.filter (· != .here) = [] := List.filter_eq_nil_iff.mpr hxs
      rw [List.filter_append, hxs, List.append_nil, List.filter_cons, List.filter_cons, ← hr₁,
        List.filter_filter]
      simp

theorem Path.filter_components (p : Path) :
    p.components.filter (· != .here) = p.written.filter (· != .here) := by
  unfold components
  split
  · next h => rw [h]
  · next c r h => simp [h, List.filter_cons]

theorem Path.endsInHere_iff {p : Path} {ws hs : List Component} {c : Component}
    (h : p.written = ws ++ c :: hs) (hhs : ∀ x ∈ hs, x = .here) (hc : c ≠ .here) :
    p.endsInHere = true ↔ hs ≠ [] := by
  rw [endsInHere, h, beq_iff_eq, List.getLast?_append_of_ne_nil _ (by simp)]
  by_cases hnil : hs = []
  · simpa [hnil] using hc
  · rw [List.getLast?_cons_of_ne_nil hnil, List.getLast?_eq_some_getLast hnil]
    simp [hnil, hhs _ (List.getLast_mem hnil)]

theorem Step.goal_congr {cs ds : List Component}
    (h : cs.filter (· != .here) = ds.filter (· != .here)) (l : Location) :
    goal l (cs.map Step.ofComponent) = goal l (ds.map Step.ofComponent) := by
  rw [← Disk.goal_filter_here cs, h, Disk.goal_filter_here]

theorem Path.goal_components (p : Path) (l : Location) :
    Step.goal l (p.components.map Step.ofComponent) = Step.goal l p.bareSteps :=
  Step.goal_congr p.filter_components l

namespace Disk

variable {d e : Disk} {l : Location} {p : Path} {cs ds ms : List Component} {c : Component}

theorem clear_filter_here :
    d.Clear l ((cs.filter (· != .here)).map Step.ofComponent) ↔
      d.Clear l (cs.map Step.ofComponent) := by
  refine ⟨?_, Clear.filter_here⟩
  induction cs generalizing l with
  | nil => exact id
  | cons c r ih =>
    cases c with
    | here => rw [List.filter_cons_of_neg (by simp)]; exact ih
    | name n => rw [List.filter_cons_of_pos (by simp)]; exact fun h => ⟨h.1, ih h.2⟩
    | _ => rw [List.filter_cons_of_pos (by simp)]; exact ih (l := _)

theorem clear_congr (h : cs.filter (· != .here) = ds.filter (· != .here)) :
    d.Clear l (cs.map Step.ofComponent) ↔ d.Clear l (ds.map Step.ofComponent) := by
  rw [← clear_filter_here, h, clear_filter_here]

/-! ## One attempt -/

/-- A walk behind a name that is missing. -/
theorem stride_to_missing (last : LastName) {xs : List Step} (rest : List Step) {n : Name}
    (hlast : last ≠ .created) (h : d.Clear l xs) (hn : d.node? (Step.goal l xs ++ [n]) = none) :
    d.stride last l (xs ++ .name n :: rest) =
      if rest = [] ∧ last ≠ .followed then .arrived (Step.goal l xs ++ [n])
      else .blocked .notFound := by
  rw [stride_append h (by simp) (by simp), stride, if_neg fun hc => hlast hc.1, hn]

section Attempt

variable (hd : d.Plain) (hstart : d.node? d.start = some .directory) (hp : p.isEmpty = false)

include hp in
private theorem bareSteps_ne_nil : p.bareSteps ≠ [] := by
  simp [Path.bareSteps, Path.written_ne_nil hp]

include hp in
private theorem makeDirectory_of_blocked {err : OsError}
    (h : d.stride .taken d.start p.bareSteps = .blocked err) :
    d.makeDirectory p = .error err := by
  rw [makeDirectory, make, locate_of_blocked (bareSteps_ne_nil hp) h]
  rfl

include hp in
private theorem makeDirectory_of_arrived {m : Location}
    (h : d.stride .taken d.start p.bareSteps = .arrived m) :
    d.makeDirectory p =
      match d.node? m with
      | none => .ok (d.put m .directory)
      | some _ => .error .exists := by
  rw [makeDirectory, make, locate_of_arrived (bareSteps_ne_nil hp) h]
  rfl

include hd hstart hp in
/-- The path that a clear way belongs to leads to the directory at its end. -/
theorem opens_of_clear (hc : d.Clear d.start (p.components.map Step.ofComponent)) :
    d.Opens p (Step.goal d.start (p.components.map Step.ofComponent)) := by
  have hfilter := p.filter_components
  exact ⟨hp, (clear_congr hfilter).mp hc, (Step.goal_congr hfilter _).symm,
    hc.directory hd hstart⟩

include hd hstart hp in
/-- **One attempt to make a path**, from a disk on which the way to its last component
is clear and which has no file there. The path is there, or its last component is a
name that is missing; then a `.` behind the name decides. -/
private theorem make_last (hcomp : p.components = ms ++ [c])
    (hc : d.Clear d.start (ms.map Step.ofComponent))
    (hno : contentOf (d.node? (Step.goal d.start ((ms ++ [c]).map Step.ofComponent))) = none) :
    (d.Clear d.start ((ms ++ [c]).map Step.ofComponent) ∧
      d.makeDirectory p = .error .exists ∧ d.isDirectory p = true) ∨
    ∃ n, c = .name n ∧
      d.node? (Step.goal d.start ((ms ++ [c]).map Step.ofComponent)) = none ∧
      d.isDirectory p = false ∧
      d.makeDirectory p = if p.endsInHere then .error .notFound
        else .ok (d.put (Step.goal d.start (ms.map Step.ofComponent) ++ [n]) .directory) := by
  by_cases hall : d.Clear d.start ((ms ++ [c]).map Step.ofComponent)
  · have hopens := opens_of_clear hd hstart hp (hcomp ▸ hall)
    refine .inl ⟨hall, ?_, isDirectory_iff.mpr ⟨_, hopens.directoryAt⟩⟩
    rw [makeDirectory_of_arrived hp (stride_of_clear hopens.clear (by simp)), hopens.goal,
      hopens.directory]
  · -- Only a name can be in the way, and as it is no file it is missing.
    have hlast := hall
    rw [clear_concat, not_and] at hlast
    obtain ⟨n, rfl, hnot⟩ : ∃ n, c = .name n ∧
        d.node? (Step.goal d.start ((ms ++ [c]).map Step.ofComponent)) ≠ some .directory := by
      simpa using hlast hc
    have hnone : d.node? (Step.goal d.start ((ms ++ [Component.name n]).map Step.ofComponent)) =
        none := hd.node?_eq_none hno hnot
    refine .inr ⟨n, rfl, hnone, ?_, ?_⟩
    · rw [← Bool.not_eq_true, isDirectory_iff]
      rintro ⟨m, hm⟩
      obtain ⟨-, -, hgoal, hdir⟩ := hd.opens hm
      rw [Path.bareSteps, ← Step.goal_congr p.filter_components, hcomp] at hgoal
      rw [← hgoal, hnone] at hdir
      simp at hdir
    · obtain ⟨ws, hs, hw, hhs, hfilter⟩ := Path.written_split hcomp
      rw [goal_concat_name, ← Step.goal_congr hfilter] at hnone
      rw [← clear_congr hfilter] at hc
      have hstride := stride_to_missing .taken (hs.map Step.ofComponent) (by simp) hc hnone
      rw [show ws.map Step.ofComponent ++ .name n :: hs.map Step.ofComponent = p.bareSteps by
        simp [Path.bareSteps, hw, Step.ofComponent]] at hstride
      have hends := Path.endsInHere_iff hw hhs (by simp)
      by_cases hnil : hs = []
      · rw [if_pos (by simp [hnil])] at hstride
        rw [makeDirectory_of_arrived hp hstride, hnone, if_neg (by simp [hends, hnil]),
          Step.goal_congr hfilter]
      · rw [if_neg (by simp [hnil])] at hstride
        rw [makeDirectory_of_blocked hp hstride, if_pos (hends.mpr hnil)]

include hd hp in
/-- An attempt fails if something is missing before the last component. -/
private theorem make_too_far (hcomp : p.components = ms ++ [c])
    (hc : ¬ d.Clear d.start (ms.map Step.ofComponent)) (hfree : d.FileFree d.start ms) :
    d.makeDirectory p = .error .notFound := by
  obtain ⟨ws, hs, hw, -, hfilter⟩ := Path.written_split hcomp
  obtain ⟨xs, n, ys, rfl, hxs, hn⟩ := (hfree.clear_or_missing hd).resolve_left hc
  rw [List.filter_append, List.filter_cons_of_pos (by simp)] at hfilter
  obtain ⟨w₁, w₂, rfl, hw₁, hw₂⟩ := List.filter_eq_append_iff.mp hfilter
  obtain ⟨ts, us, rfl, hts, -, -⟩ := List.filter_eq_cons_iff.mp hw₂
  -- The name is written behind the same components, with `.` segments among them.
  have hsame : (w₁ ++ ts).filter (· != .here) = xs.filter (· != .here) := by
    rw [List.filter_append, hw₁, List.filter_eq_nil_iff.mpr hts, List.append_nil]
  rw [← Step.goal_congr hsame] at hn
  rw [← clear_congr hsame] at hxs
  have hstride := stride_to_missing .taken ((us ++ c :: hs).map Step.ofComponent) (by simp) hxs hn
  rw [if_neg (by simp)] at hstride
  apply makeDirectory_of_blocked hp
  rw [← hstride]
  simp [Path.bareSteps, hw, Step.ofComponent]

end Attempt

/-! ## Making the whole path -/

/-- Whether a path with a `.` at its end can be made: what it leads to is there, or is
on the way along the components before the last one. -/
def Seated (d : Disk) (p : Path) : Prop :=
  p.endsInHere = true →
    d.node? (Step.goal d.start (p.components.map Step.ofComponent)) = some .directory ∨
      OnWay d.start p.components.dropLast
        (Step.goal d.start (p.components.map Step.ofComponent))

/-- What comes of making a path that has no file on its way. -/
inductive PathMaking (d : Disk) (p : Path) : Disk → Except OsError Unit → Prop
  /-- The whole way is there afterwards. -/
  | made {e : Disk} (seated : d.Seated p) (laid : d.Laid e p.components) :
      PathMaking d p e (.ok ())
  /-- The path ends in `.` behind a name that is missing. -/
  | unseated {e : Disk} (notSeated : ¬ d.Seated p) (laid : d.Laid e p.components.dropLast) :
      PathMaking d p e (.error .notFound)

/-- One attempt to make a path, where a directory that is there is as good as made. -/
def tryMake (d : Disk) (p : Path) : Disk × Except OsError Unit :=
  match d.makeDirectory p with
  | .ok e => (e, .ok ())
  | .error err => (d, if d.isDirectory p then .ok () else .error err)

theorem makeFirst_of_notFound {above : List Path} (h : d.makeDirectory p = .error .notFound)
    (habove : d.makeFirst above = (e, .ok ())) : d.makeFirst (p :: above) = e.tryMake p := by
  rw [makeFirst, h]
  generalize d.makeFirst above = made at habove ⊢
  subst habove
  rfl

theorem makeFirst_of_ne_notFound {above : List Path} (h : d.makeDirectory p ≠ .error .notFound) :
    d.makeFirst (p :: above) = d.tryMake p := by
  rw [makeFirst, tryMake]
  cases hmake : d.makeDirectory p with
  | ok e => rfl
  | error err =>
    cases err with
    | notFound => exact absurd hmake h
    | _ => rfl

/-- With the way before the last component made, a path is seated if it is there. -/
theorem Laid.seated_iff (he : d.Laid e ms) (hcomp : p.components = ms ++ [c]) :
    d.Seated p ↔ (p.endsInHere = true →
      e.node? (Step.goal d.start ((ms ++ [c]).map Step.ofComponent)) = some .directory) := by
  unfold Seated
  rw [hcomp, List.dropLast_concat]
  apply imp_congr_right
  intro _
  by_cases hway : OnWay d.start ms (Step.goal d.start ((ms ++ [c]).map Step.ofComponent))
  · exact iff_of_true (.inr hway) (he.way _ hway)
  · rw [he.others _ hway]
    exact or_iff_left hway

section Making

variable (hd : d.Plain) (hstart : d.node? d.start = some .directory)

include hd hstart in
/-- An attempt that is made when the way to the last component is there. -/
private theorem pathMaking_tryMake (hp : p.isEmpty = false) (hcomp : p.components = ms ++ [c])
    (hfree : d.FileFree d.start (ms ++ [c])) (he : d.Laid e ms) :
    d.PathMaking p (e.tryMake p).1 (e.tryMake p).2 := by
  have hep : e.Plain := by
    apply he.plain hd hstart
    intro n hn
    exact (Path.spellable_components p).1 n (by simp [hcomp, hn])
  have hestart : e.node? e.start = some .directory := by
    rw [he.start]
    exact he.keeps _ hstart
  have hgoal : contentOf (e.node? (Step.goal d.start ((ms ++ [c]).map Step.ofComponent))) = none :=
    he.no_content (hfree _ (onWay_of_prefix_goal (by simp) List.prefix_rfl))
  have hlast := make_last hep hestart hp hcomp he.clear (by rwa [he.start])
  rw [he.start] at hlast
  unfold tryMake
  rcases hlast with ⟨hclear, hmake, hdir⟩ | ⟨n, rfl, hnone, hdir, hmake⟩
  · have hthere := hclear.directory hep (he.keeps _ hstart)
    rw [hmake, hdir]
    exact .made ((he.seated_iff hcomp).mpr fun _ => hthere) (hcomp ▸ he.concat hep hthere)
  · by_cases hhere : p.endsInHere = true
    · rw [hmake, if_pos hhere, hdir]
      refine .unseated ?_ (by rwa [hcomp, List.dropLast_concat])
      rw [he.seated_iff hcomp, hnone]
      simp [hhere]
    · have hbefore := he.clear.directory hep hestart
      rw [he.start] at hbefore
      rw [hmake, if_neg hhere]
      exact .made (fun h => absurd h hhere) (hcomp ▸ he.put hep n hbefore)

include hd hstart in
/-- One component more, once those before it can be made. The first attempt decides unless
something is missing, and the second one is made when all before the last component is
there. -/
private theorem pathMaking_concat {above : List Path} (hp : p.isEmpty = false)
    (hcomp : p.components = ms ++ [c]) (hfree : d.FileFree d.start (ms ++ [c]))
    (habove : d.makeFirst above = (e, .ok ())) (he : d.Laid e ms) :
    d.PathMaking p (d.makeFirst (p :: above)).1 (d.makeFirst (p :: above)).2 := by
  by_cases hfirst : d.makeDirectory p = .error .notFound
  · rw [makeFirst_of_notFound hfirst habove]
    exact pathMaking_tryMake hd hstart hp hcomp hfree he
  · have hc : d.Clear d.start (ms.map Step.ofComponent) := by
      by_contra hc
      exact hfirst (make_too_far hd hp hcomp hc (hfree.mono (List.prefix_append ms [c])))
    rw [makeFirst_of_ne_notFound hfirst]
    exact pathMaking_tryMake hd hstart hp hcomp hfree (laid_self hd hstart hc)

include hd hstart in
/-- The directories that a path lies in by its components can all be made. -/
private theorem makeFirst_above (hfree : d.FileFree d.start ms) (hs : Path.Spellable ms)
    (hhere : .here ∉ ms.tail) :
    ∃ e, d.makeFirst ((Path.beginnings (ms ++ [c])).map Path.ofComponents) = (e, .ok ()) ∧
      d.Laid e ms := by
  induction ms using List.reverseRecOn generalizing c with
  | nil => exact ⟨d, rfl, laid_self hd hstart trivial⟩
  | append_singleton ms b ih =>
    have hbefore : ms <+: ms ++ [b] := List.prefix_append ms [b]
    have hhere' : .here ∉ ms.tail := fun h => hhere (hbefore.sublist.tail.subset h)
    obtain ⟨e, hmake, he⟩ := ih (c := b) (hfree.mono hbefore) (hs.mono hbefore) hhere'
    have hcomp := Path.components_ofComponents hs hhere
    have hmaking := pathMaking_concat hd hstart (Path.isEmpty_ofComponents (by simp) hs) hcomp
      hfree hmake he
    rw [Path.beginnings_append_singleton (by simp) c, List.map_cons]
    generalize d.makeFirst (_ :: _) = made at hmaking ⊢
    obtain ⟨f, answer⟩ := made
    cases hmaking with
    | made _ laid => exact ⟨f, rfl, hcomp ▸ laid⟩
    | unseated notSeated _ =>
      refine absurd ?_ notSeated
      rw [he.seated_iff hcomp, Path.endsInHere, Path.written_ofComponents (by simp) hs]
      intro hlast
      obtain rfl : b = .here := by simpa using hlast
      -- Such a component stands in the first place alone.
      cases ms with
      | nil => exact he.keeps _ hstart
      | cons x r => simp at hhere

include hd hstart in
/-- **Making a path with no file on its way.** -/
theorem pathMaking (hp : p.isEmpty = false) (hfree : d.FileFree d.start p.components) :
    d.PathMaking p (d.makeDirectories p).1 (d.makeDirectories p).2 := by
  obtain ⟨ms, c, hcomp⟩ : ∃ ms c, p.components = ms ++ [c] :=
    ⟨_, _, (List.dropLast_concat_getLast (Path.components_ne_nil hp)).symm⟩
  have hbefore : ms <+: p.components := hcomp ▸ List.prefix_append ms [c]
  have hhere : .here ∉ ms.tail := by
    intro h
    exact Path.here_not_mem_tail_components p (hbefore.sublist.tail.subset h)
  obtain ⟨e, habove, he⟩ := makeFirst_above hd hstart (c := c) (hfree.mono hbefore)
    ((Path.spellable_components p).mono hbefore) hhere
  rw [makeDirectories, if_neg (by simp [hp]), Path.enclosing, hcomp]
  exact pathMaking_concat hd hstart hp hcomp (hcomp ▸ hfree) habove he

end Making

end Disk

end GuestSync
