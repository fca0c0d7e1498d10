/-
# GuestSync.Proofs.PlainDisk -- walks on a disk of directories and files

On a disk without links a walk goes where its steps say, or it is stopped: no
step can lead it elsewhere. So a path that leads to a directory keeps leading
there as long as no directory is taken away, and an entry of that directory is
found at one name more. The section on entries reads every operation off the
view at that one location.
-/
import GuestSync.Disk.Operation
import GuestSync.Proofs.PathNames

namespace GuestSync

/-! ## Where steps lead -/

/-- Where steps lead from a location if nothing stops them. -/
def Step.goal : Location → List Step → Location
  | l, [] => l
  | _, .root :: r => goal [] r
  | l, .here :: r => goal l r
  | l, .slash :: r => goal l r
  | l, .up :: r => goal l.dropLast r
  | l, .name n :: r => goal (l ++ [n]) r

namespace Path

theorem bareSteps_join {p q : Path} (hp : p.isEmpty = false) (hq : q.Inner) :
    (p.join q).bareSteps = p.bareSteps ++ q.bareSteps := by
  rw [bareSteps, written_join hp hq.not_absolute, List.map_append]
  rfl

theorem bareSteps_ofName {n : Name} (h : Name.Proper n) : (⟨n⟩ : Path).bareSteps = [.name n] := by
  rw [bareSteps, written_ofName h]
  rfl

theorem steps_ne_nil {p : Path} (h : p.isEmpty = false) : p.steps ≠ [] := by
  simp [steps, bareSteps, written_ne_nil h]

theorem endsInSlash_ofName {n : Name} (h : Name.Proper n) : (⟨n⟩ : Path).endsInSlash = false := by
  rw [endsInSlash, beq_eq_false_iff_ne]
  intro hlast
  exact h.no_slash (List.mem_of_getLast? hlast)

/-- The steps to an entry are those to its directory and its name. -/
theorem steps_child {p : Path} {n : Name} (hp : p.isEmpty = false) (h : Name.Proper n) :
    (p.child n).steps = p.bareSteps ++ [.name n] ∧
      (p.child n).bareSteps = p.bareSteps ++ [.name n] ∧ (p.child n).endsInSlash = false := by
  have hin := inner_ofName h
  have hslash : (p.child n).endsInSlash = false :=
    (endsInSlash_join hp hin).trans (endsInSlash_ofName h)
  have hbare : (p.child n).bareSteps = p.bareSteps ++ [.name n] := by
    rw [child, bareSteps_join hp hin, bareSteps_ofName h]
  exact ⟨by simp [steps, hslash, hbare], hbare, hslash⟩

theorem proper_of_mem_bareSteps {p : Path} {n : Name} (h : .name n ∈ p.bareSteps) :
    Name.Proper n := by
  obtain ⟨c, hc, heq⟩ := List.mem_map.mp h
  cases c with
  | name k =>
    obtain rfl : k = n := by simpa [Step.ofComponent] using heq
    exact proper_of_mem_written hc
  | _ => simp [Step.ofComponent] at heq

theorem proper_of_mem_steps {p : Path} {n : Name} (h : .name n ∈ p.steps) : Name.Proper n := by
  rw [steps, List.mem_append] at h
  rcases h with h | h
  · exact proper_of_mem_bareSteps h
  · split at h <;> simp at h

end Path

/-- Whether a node is a directory or a regular file. -/
def Node.isPlain : Node → Bool
  | .directory => true
  | .file .. => true
  | _ => false

theorem Step.goal_append (l : Location) (xs ys : List Step) :
    goal l (xs ++ ys) = goal (goal l xs) ys := by
  induction xs generalizing l with
  | nil => rfl
  | cons x r ih => cases x <;> exact ih _

/-- Inner components lead from a location to their names below it. -/
theorem Step.goal_inside {cs : List Component} (h : Component.Inside cs) (l : Location) :
    goal l (cs.map Step.ofComponent) = l ++ Component.names cs := by
  induction h generalizing l with
  | nil => simp [goal]
  | here _ ih => exact ih l
  | name n _ ih =>
    rw [Component.names_name, List.append_cons]
    exact ih (l ++ [n])

theorem Path.goal_join {p q : Path} (hp : p.isEmpty = false) (hq : q.Inner) (l : Location) :
    Step.goal l (p.join q).bareSteps = Step.goal l p.bareSteps ++ q.names := by
  rw [bareSteps_join hp hq, Step.goal_append]
  exact Step.goal_inside hq.inside _

namespace Disk

/-- Whether every name among the steps is that of a directory, so that a walk
comes through. -/
def Clear (d : Disk) : Location → List Step → Prop
  | _, [] => True
  | _, .root :: r => d.Clear [] r
  | l, .here :: r => d.Clear l r
  | l, .slash :: r => d.Clear l r
  | l, .up :: r => d.Clear l.dropLast r
  | l, .name n :: r => d.node? (l ++ [n]) = some .directory ∧ d.Clear (l ++ [n]) r

theorem clear_append {d : Disk} {l : Location} {xs ys : List Step} :
    d.Clear l (xs ++ ys) ↔ d.Clear l xs ∧ d.Clear (Step.goal l xs) ys := by
  induction xs generalizing l with
  | nil => simp [Clear, Step.goal]
  | cons x r ih => cases x <;> simp [Clear, Step.goal, ih, and_assoc]

theorem Clear.mono {d e : Disk} (h : ∀ l, d.node? l = some .directory → e.node? l = some .directory)
    {l : Location} {xs : List Step} (hc : d.Clear l xs) : e.Clear l xs := by
  induction xs generalizing l with
  | nil => trivial
  | cons x r ih =>
    cases x with
    | name n => exact ⟨h _ hc.1, ih hc.2⟩
    | _ => exact ih (l := _) hc

/-- A walk through directories goes on behind them. A slash that stands alone
behind the last name is told apart, because creating a file refuses it. -/
theorem stride_append {d : Disk} {last : LastName} {l : Location} {xs ys : List Step}
    (hc : d.Clear l xs) (hys : ys ≠ []) (hslash : last = .created → ys ≠ [.slash]) :
    d.stride last l (xs ++ ys) = d.stride last (Step.goal l xs) ys := by
  induction xs generalizing l with
  | nil => rfl
  | cons x r ih =>
    cases x with
    | name n =>
      have hnot : ¬ (last = .created ∧ r ++ ys = [.slash]) := by
        rintro ⟨hlast, hr⟩
        cases r with
        | nil => exact hslash hlast hr
        | cons y r => simp_all
      rw [List.cons_append, stride, if_neg hnot, hc.1]
      exact ih hc.2
    | _ => exact ih (l := _) hc

theorem stride_of_clear {d : Disk} {last : LastName} {l : Location} {xs : List Step}
    (hc : d.Clear l xs) (hlast : last ≠ .created) :
    d.stride last l xs = .arrived (Step.goal l xs) := by
  induction xs generalizing l with
  | nil => rfl
  | cons x r ih =>
    cases x with
    | name n =>
      rw [stride, if_neg (fun h => hlast h.1), hc.1]
      exact ih hc.2
    | _ => exact ih (l := _) hc

theorem locate_of_arrived {d : Disk} {last : LastName} {steps : List Step} {l : Location}
    (hne : steps ≠ []) (h : d.stride last d.start steps = .arrived l) :
    d.locate last steps = .ok l := by
  rw [locate, if_neg hne, maxLinks]
  unfold walk
  rw [h]

theorem locate_of_blocked {d : Disk} {last : LastName} {steps : List Step} {e : OsError}
    (hne : steps ≠ []) (h : d.stride last d.start steps = .blocked e) :
    d.locate last steps = .error e := by
  rw [locate, if_neg hne, maxLinks]
  unfold walk
  rw [h]

/-! ## Disks without links -/

/-- Whether there is no link anywhere. There may be pipes. -/
def Linkless (d : Disk) : Prop := ∀ l target, d.node? l ≠ some (.link target)

namespace Linkless

variable {d : Disk} {last : LastName} {l m : Location} {xs : List Step}

theorem stride_ne_link (h : d.Linkless) (b : Location) (t : Path) (r : List Step) :
    d.stride last l xs ≠ .link b t r := by
  induction xs generalizing l with
  | nil => simp [stride]
  | cons x rest ih =>
    cases x with
    | name n =>
      rw [stride]
      split
      · simp
      · split
        · split <;> simp
        · exact ih
        · next hx => exact absurd hx (h _ _)
        · split <;> simp
    | _ => exact ih

theorem arrived_of_locate (h : d.Linkless) (hloc : d.locate last xs = .ok l) :
    d.stride last d.start xs = .arrived l := by
  unfold locate at hloc
  split at hloc
  · simp at hloc
  unfold walk at hloc
  cases hs : d.stride last d.start xs with
  | arrived m => simpa [hs] using hloc
  | blocked e => simp [hs] at hloc
  | link b t r => exact absurd hs (h.stride_ne_link b t r)

/-- A walk that arrives comes to the place where its steps lead. -/
theorem goal_of_arrived (h : d.Linkless) (ha : d.stride last l xs = .arrived m) :
    Step.goal l xs = m := by
  induction xs generalizing l with
  | nil => exact Stride.arrived.inj ha
  | cons x r ih =>
    cases x with
    | name n =>
      -- At the end of the path anything may stand, before it only a directory.
      have hend : r = [] → Stride.arrived (l ++ [n]) = .arrived m →
          Step.goal l (.name n :: r) = m := by
        rintro rfl heq
        exact Stride.arrived.inj heq
      rw [stride] at ha
      split at ha
      · simp at ha
      · split at ha
        · split at ha
          · next hr => exact hend hr.1 ha
          · simp at ha
        · exact ih ha
        · next hx => exact absurd hx (h _ _)
        · split at ha
          · next hr => exact hend hr ha
          · simp at ha
    | _ => exact ih (l := _) ha

theorem goal_of_locate (h : d.Linkless) (hloc : d.locate last xs = .ok m) :
    Step.goal d.start xs = m :=
  h.goal_of_arrived (h.arrived_of_locate hloc)

end Linkless

/-! ## Disks of directories and files -/

/-- A disk made of directories and regular files alone. Every node lies in a
directory and has a name that an entry can have. -/
structure Plain (d : Disk) : Prop where
  wellFormed : d.WellFormed
  kinds : ∀ l x, d.node? l = some x → x = .directory ∨ ∃ content tag, x = .file content tag
  proper : ∀ l n, d.node? (l ++ [n]) ≠ none → Name.Proper n

namespace Plain

variable {d e : Disk}

theorem node_cases (h : d.Plain) (l : Location) :
    d.node? l = none ∨ d.node? l = some .directory ∨ ∃ c t, d.node? l = some (.file c t) := by
  cases hl : d.node? l with
  | none => simp
  | some x => simpa using h.kinds l x hl

theorem linkless (h : d.Plain) : d.Linkless := by
  intro l target hl
  simpa using h.kinds l _ hl

/-- Above a directory there are only directories. -/
theorem directory_of_prefix (h : d.Plain) {l m : Location} (hlm : l <+: m)
    (hm : d.node? m ≠ none) (hne : l ≠ m) : d.node? l = some .directory := by
  obtain ⟨r, rfl⟩ := hlm
  induction r using List.reverseRecOn with
  | nil => simp at hne
  | append_singleton r n ih =>
    have hdir : d.node? (l ++ r) = some .directory :=
      h.wellFormed (l ++ r) n (by simpa using hm)
    by_cases hr : r = []
    · simpa [hr] using hdir
    · exact ih (by simp [hdir]) (by simpa using hr)

theorem directory_of_prefix_directory (h : d.Plain) {l m : Location} (hlm : l <+: m)
    (hm : d.node? m = some .directory) : d.node? l = some .directory := by
  by_cases hne : l = m
  · rwa [hne]
  · exact h.directory_of_prefix hlm (by simp [hm]) hne

/-- A walk that arrives has met nothing but directories before its last steps. -/
theorem clear_of_arrived_append (h : d.Plain) {last : LastName} {l m : Location}
    {xs ys : List Step} (hys : ys ≠ []) (ha : d.stride last l (xs ++ ys) = .arrived m) :
    d.Clear l xs := by
  induction xs generalizing l with
  | nil => trivial
  | cons x rest ih =>
    cases x with
    | name n =>
      have hmore : rest ++ ys ≠ [] := by simp [hys]
      rw [List.cons_append, stride] at ha
      split at ha
      · simp at ha
      · rcases h.node_cases (l ++ [n]) with hn | hn | ⟨c, t, hn⟩
        · simp [hn, hmore] at ha
        · rw [hn] at ha
          exact ⟨hn, ih ha⟩
        · simp [hn] at ha
    | _ => exact ih (l := _) ha

/-- A walk that ends at a directory has met nothing but directories. -/
theorem clear_of_arrived (h : d.Plain) {l m : Location} {xs : List Step}
    (ha : d.stride .followed l xs = .arrived m) (hm : d.node? m = some .directory) :
    d.Clear l xs ∧ Step.goal l xs = m := by
  induction xs generalizing l with
  | nil =>
    rw [stride, Stride.arrived.injEq] at ha
    exact ⟨trivial, ha⟩
  | cons x rest ih =>
    cases x with
    | name n =>
      rw [stride, if_neg (by simp)] at ha
      rcases h.node_cases (l ++ [n]) with hn | hn | ⟨c, t, hn⟩
      · simp [hn] at ha
      · rw [hn] at ha
        obtain ⟨hclear, hgoal⟩ := ih ha
        exact ⟨⟨hn, hclear⟩, hgoal⟩
      · rw [hn] at ha
        dsimp only at ha
        split at ha
        · rw [Stride.arrived.injEq] at ha
          rw [← ha, hn] at hm
          simp at hm
        · simp at ha
    | _ => exact ih (l := _) ha

/-- Putting something at an entry of a directory keeps a disk plain, unless a
directory is put out of the way. -/
theorem of_update (h : d.Plain) {l : Location} {n : Name} {x : Option Node}
    (he : e.node? = Function.update d.node? (l ++ [n]) x) (hl : d.node? l = some .directory)
    (hn : Name.Proper n) (hd : d.node? (l ++ [n]) ≠ some .directory)
    (hx : ∀ y, x = some y → y = .directory ∨ ∃ c t, y = .file c t) : e.Plain := by
  have hview : ∀ m, e.node? m = if m = l ++ [n] then x else d.node? m := by
    intro m
    rw [he, Function.update_apply]
  refine ⟨?_, ?_, ?_⟩
  · intro m k hm
    by_cases hmk : m ++ [k] = l ++ [n]
    · obtain ⟨rfl, -⟩ := List.append_singleton_inj.mp hmk
      rwa [hview, if_neg (by simp)]
    · rw [hview, if_neg hmk] at hm
      have hdir := h.wellFormed m k hm
      -- The one entry that changes was no directory, so nothing lies in it.
      have hne : m ≠ l ++ [n] := by
        rintro rfl
        exact hd hdir
      rwa [hview, if_neg hne]
  · intro m y hm
    rw [hview] at hm
    split at hm
    · exact hx y hm
    · exact h.kinds m y hm
  · intro m k hm
    rw [hview] at hm
    split at hm
    · next hmk =>
      obtain ⟨-, rfl⟩ := List.append_singleton_inj.mp hmk
      exact hn
    · exact h.proper m k hm

end Plain

/-- Whether every node is a directory or a regular file, lies in a directory and has
a name that an entry can have. -/
def IsPlain (d : Disk) : Prop :=
  ∀ e ∈ d.nodes, e.2.isPlain = true ∧ d.node? e.1.dropLast = some .directory ∧
    ∀ n ∈ e.1.getLast?, Name.Proper n

instance (d : Disk) : Decidable d.IsPlain := List.decidableBAll _ _

/-- The nodes of a disk can be tested one by one. -/
theorem IsPlain.plain {d : Disk} (h : d.IsPlain) : d.Plain := by
  have hmem : ∀ {l x}, d.node? l = some x → l = [] ∨ (l, x) ∈ d.nodes := by
    intro l x hx
    unfold node? at hx
    split at hx
    · next hl => exact .inl hl
    · obtain ⟨before, after, hnodes, -⟩ := List.lookup_eq_some_iff.mp hx
      exact .inr (by simp [hnodes])
  have hentry : ∀ l n, d.node? (l ++ [n]) ≠ none →
      d.node? l = some .directory ∧ Name.Proper n := by
    intro l n hne
    obtain ⟨x, hx⟩ := Option.ne_none_iff_exists'.mp hne
    have hin := h _ ((hmem hx).resolve_left (by simp))
    simpa using hin.2
  refine ⟨fun l n hne => (hentry l n hne).1, ?_, fun l n hne => (hentry l n hne).2⟩
  intro l x hx
  rcases hmem hx with rfl | hin
  · exact .inl (by simpa [node?_root] using hx.symm)
  · have hkind : x.isPlain = true := (h _ hin).1
    cases x <;> simp_all [Node.isPlain]

/-- The view after putting a node below the root. -/
theorem node?_put_update (d : Disk) {l : Location} (hl : l ≠ []) (x : Node) :
    (d.put l x).node? = Function.update d.node? l (some x) := by
  funext m
  rw [node?_put, Function.update_apply]
  by_cases hm : m = []
  · simp [hm, Ne.symm hl, node?_root]
  · rw [if_neg hm]

/-- The view after erasing a node below the root. -/
theorem node?_erase_update (d : Disk) {l : Location} (hl : l ≠ []) :
    (d.erase l).node? = Function.update d.node? l none := by
  funext m
  rw [node?_erase, Function.update_apply]
  by_cases hm : m = []
  · simp [hm, Ne.symm hl, node?_root]
  · rw [if_neg hm]

/-! ## Paths to directories -/

/-- The path leads to a directory at the location. -/
def DirectoryAt (d : Disk) (p : Path) (l : Location) : Prop :=
  d.locate .followed p.steps = .ok l ∧ d.node? l = some .directory

theorem isDirectory_iff {d : Disk} {p : Path} :
    d.isDirectory p = true ↔ ∃ l, d.DirectoryAt p l := by
  unfold isDirectory status DirectoryAt
  cases hloc : d.locate .followed p.steps with
  | error e => simp [bind, Except.bind]
  | ok l =>
    cases hx : d.node? l with
    | none => simp [bind, Except.bind, hx]
    | some x => cases x <;> simp [bind, Except.bind, hx]

/-- What it means on a plain disk that a path leads to a directory. -/
structure Opens (d : Disk) (p : Path) (l : Location) : Prop where
  nonempty : p.isEmpty = false
  clear : d.Clear d.start p.bareSteps
  goal : Step.goal d.start p.bareSteps = l
  directory : d.node? l = some .directory

private theorem clear_steps {d : Disk} {p : Path} :
    d.Clear d.start p.steps ↔ d.Clear d.start p.bareSteps := by
  rw [Path.steps, clear_append]
  split <;> simp [Clear]

theorem goal_steps {p : Path} (l : Location) :
    Step.goal l p.steps = Step.goal l p.bareSteps := by
  rw [Path.steps, Step.goal_append]
  split <;> rfl

theorem Opens.directoryAt {d : Disk} {p : Path} {l : Location} (h : d.Opens p l) :
    d.DirectoryAt p l := by
  refine ⟨locate_of_arrived (Path.steps_ne_nil h.nonempty) ?_, h.directory⟩
  rw [stride_of_clear (clear_steps.mpr h.clear) (by simp), goal_steps, h.goal]

theorem Plain.opens {d : Disk} (hd : d.Plain) {p : Path} {l : Location} (h : d.DirectoryAt p l) :
    d.Opens p l := by
  obtain ⟨hloc, hdir⟩ := h
  have hne : p.steps ≠ [] := fun hnil => by simp [locate, hnil] at hloc
  have hp : p.isEmpty = false := by
    by_contra hemp
    simp only [Bool.not_eq_false, Path.isEmpty, List.isEmpty_iff] at hemp
    obtain ⟨bs⟩ := p
    subst hemp
    exact hne rfl
  obtain ⟨hclear, hgoal⟩ := hd.clear_of_arrived (hd.linkless.arrived_of_locate hloc) hdir
  exact ⟨hp, clear_steps.mp hclear, by rw [← goal_steps, hgoal], hdir⟩

theorem Opens.mono {d e : Disk} {p : Path} {l : Location} (h : d.Opens p l)
    (hstart : e.start = d.start)
    (hkeep : ∀ m, d.node? m = some .directory → e.node? m = some .directory) : e.Opens p l :=
  ⟨h.nonempty, by rw [hstart]; exact h.clear.mono hkeep, by rw [hstart, h.goal],
    hkeep l h.directory⟩

/-- The way to a directory is clear. -/
theorem Plain.clear_inside {d : Disk} (hd : d.Plain) {cs : List Component}
    (h : Component.Inside cs) {l : Location}
    (hl : d.node? (l ++ Component.names cs) = some .directory) :
    d.Clear l (cs.map Step.ofComponent) := by
  induction h generalizing l with
  | nil => trivial
  | here _ ih => exact ih hl
  | name n _ ih =>
    rw [Component.names_name, List.append_cons] at hl
    exact ⟨hd.directory_of_prefix_directory (List.prefix_append _ _) hl, ih hl⟩

/-- An inner path taken in a directory leads to the names below it. -/
theorem Opens.join {d : Disk} (hd : d.Plain) {p q : Path} {l : Location} (h : d.Opens p l)
    (hq : q.Inner) (hdir : d.node? (l ++ q.names) = some .directory) :
    d.Opens (p.join q) (l ++ q.names) := by
  refine ⟨Path.isEmpty_join h.nonempty hq, ?_, ?_, hdir⟩
  · rw [Path.bareSteps_join h.nonempty hq, clear_append, h.goal]
    exact ⟨h.clear, hd.clear_inside hq.inside hdir⟩
  · rw [Path.bareSteps_join h.nonempty hq, Step.goal_append, h.goal]
    exact Step.goal_inside hq.inside l

/-! ## Entries of a directory -/

section Entry

variable {d : Disk} {p : Path} {l : Location} {n : Name}

private theorem stride_entry (hd : d.Plain) (h : d.Opens p l) (last : LastName) :
    d.stride last d.start (p.bareSteps ++ [.name n]) =
      if last = .followed ∧ d.node? (l ++ [n]) = none then .blocked .notFound
      else .arrived (l ++ [n]) := by
  rw [stride_append h.clear (by simp) (by simp), h.goal, stride, if_neg (by simp)]
  rcases hd.node_cases (l ++ [n]) with hn | hn | ⟨c, t, hn⟩ <;> cases last <;> simp [hn, stride]

/-- Where an operation finds the entry of a name. -/
theorem locate_child (hd : d.Plain) (h : d.Opens p l) (hn : Name.Proper n) (last : LastName) :
    d.locate last (p.child n).steps =
      if last = .followed ∧ d.node? (l ++ [n]) = none then .error .notFound
      else .ok (l ++ [n]) := by
  have hsteps := (Path.steps_child h.nonempty hn).1
  have hne : (p.child n).steps ≠ [] := by simp [hsteps]
  have hs := stride_entry hd h (n := n) last
  rw [← hsteps] at hs
  split
  · next hc => exact locate_of_blocked hne (by rw [hs, if_pos hc])
  · next hc => exact locate_of_arrived hne (by rw [hs, if_neg hc])

private theorem locate_bare_child (hd : d.Plain) (h : d.Opens p l) (hn : Name.Proper n) :
    d.locate .taken (p.child n).bareSteps = .ok (l ++ [n]) := by
  obtain ⟨hsteps, hbare, -⟩ := Path.steps_child h.nonempty hn
  have hloc := locate_child hd h hn .taken
  rwa [hsteps, ← hbare, if_neg (by simp)] at hloc

theorem status_child (hd : d.Plain) (h : d.Opens p l) (hn : Name.Proper n) :
    d.status (p.child n) =
      match d.node? (l ++ [n]) with
      | some x => .ok x
      | none => .error .notFound := by
  rw [status, locate_child hd h hn]
  cases hx : d.node? (l ++ [n]) with
  | none => rfl
  | some x => simp [bind, Except.bind, hx]

theorem read_child (hd : d.Plain) (h : d.Opens p l) (hn : Name.Proper n) :
    d.read (p.child n) =
      match d.node? (l ++ [n]) with
      | some (.file content _) => .ok content
      | some _ => .error .isDirectory
      | none => .error .notFound := by
  rw [read, status_child hd h hn]
  rcases hd.node_cases (l ++ [n]) with hx | hx | ⟨c, t, hx⟩ <;> rw [hx] <;> rfl

theorem write_child (hd : d.Plain) (h : d.Opens p l) (hn : Name.Proper n) (content : Bytes) :
    d.write (p.child n) content =
      match d.node? (l ++ [n]) with
      | some (.file _ tag) => .ok (d.put (l ++ [n]) (.file content tag))
      | some _ => .error .isDirectory
      | none => .ok (d.put (l ++ [n]) (.file content none)) := by
  rw [write, locate_child hd h hn, if_neg (by simp)]
  rcases hd.node_cases (l ++ [n]) with hx | hx | ⟨c, t, hx⟩ <;> simp [bind, Except.bind, hx]

theorem setTag_child (hd : d.Plain) (h : d.Opens p l) (hn : Name.Proper n) (tag content : Bytes)
    (old : Option Bytes) (hx : d.node? (l ++ [n]) = some (.file content old)) :
    d.setTag (p.child n) tag = .ok (d.put (l ++ [n]) (.file content (some tag))) := by
  rw [setTag, locate_child hd h hn, if_neg (by simp)]
  simp [bind, Except.bind, hx]

theorem remove_child (hd : d.Plain) (h : d.Opens p l) (hn : Name.Proper n) {content : Bytes}
    {tag : Option Bytes} (hx : d.node? (l ++ [n]) = some (.file content tag)) :
    d.remove (p.child n) = .ok (d.erase (l ++ [n])) := by
  have hslash := (Path.steps_child h.nonempty hn).2.2
  rw [remove, locate_bare_child hd h hn]
  simp [bind, Except.bind, hx, hslash]

theorem list_of_directoryAt {d : Disk} {p : Path} {l : Location} (h : d.DirectoryAt p l) :
    d.list p = .ok (d.children l) := by
  rw [list, h.1]
  simp [bind, Except.bind, h.2]

end Entry

end Disk

end GuestSync
