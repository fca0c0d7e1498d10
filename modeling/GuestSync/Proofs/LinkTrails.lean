/-
# GuestSync.Proofs.LinkTrails -- what a path leads through

On a disk with links two paths may lead to one file, and a path may lead through
places that have nothing to do with its spelling. All that matters for where a path
leads is its trail, the places that the walk looks at, and of those only whether
there is a directory, a link, something else or nothing. So a change of the disk off
the trail does not matter to the path, and a change on it can be told by the kind of
node that it meets there.
-/
import GuestSync.Proofs.SourceLoss

namespace GuestSync

/-- What a walk sees of a node: a file and a pipe stop it alike. -/
def Node.shape : Node → Node
  | .file .. => .fifo
  | x => x

namespace Disk

/-- Whether a walk sees the same at a location of both disks. -/
def SeenAlike (d e : Disk) (m : Location) : Prop :=
  (e.node? m).map Node.shape = (d.node? m).map Node.shape

/-- The places that a walk looks at up to the next link, with the one where it
arrives. -/
def strideTrail (d : Disk) : Location → List Step → List Location
  | l, [] => [l]
  | _, .root :: r => d.strideTrail [] r
  | l, .here :: r => d.strideTrail l r
  | l, .slash :: r => d.strideTrail l r
  | l, .up :: r => d.strideTrail l.dropLast r
  | l, .name n :: r =>
    (l ++ [n]) ::
      match d.node? (l ++ [n]) with
      | some .directory => d.strideTrail (l ++ [n]) r
      | _ => []

/-- The places that a walk looks at, links followed. -/
def walkTrail (d : Disk) : Nat → Location → List Step → List Location
  | links, l, steps =>
    d.strideTrail l steps ++
      match d.stride .followed l steps, links with
      | .link base target rest, links + 1 => d.walkTrail links base (target.steps ++ rest)
      | _, _ => []

/-- The places that the way to the end of a path looks at. -/
def trail (d : Disk) (p : Path) : List Location := d.walkTrail maxLinks d.start p.steps

variable {d e : Disk} {l m k : Location} {xs : List Step} {p : Path} {last : LastName}

theorem ne_root (h : d.node? l ≠ some .directory) : l ≠ [] := by
  rintro rfl
  exact h d.node?_root

theorem node?_put_self {x : Node} (hl : l ≠ []) : (d.put l x).node? l = some x := by
  rw [node?_put_update d hl, Function.update_self]

theorem node?_put_of_ne {x : Node} (hl : l ≠ []) (hk : k ≠ l) : (d.put l x).node? k = d.node? k := by
  rw [node?_put_update d hl, Function.update_of_ne hk]

/-! ## Walks that see the same -/

theorem seenAlike_cases {d e : Disk} (h : d.SeenAlike e m) :
    d.node? m = e.node? m ∨ ∃ x y, d.node? m = some x ∧ e.node? m = some y ∧ x.shape = .fifo ∧
      y.shape = .fifo := by
  unfold SeenAlike at h
  cases hd : d.node? m with
  | none => cases he : e.node? m <;> simp_all
  | some x =>
    cases he : e.node? m with
    | none => simp_all
    | some y => cases x <;> cases y <;> simp_all [Node.shape]

theorem seenAlike_of_eq (h : e.node? m = d.node? m) : d.SeenAlike e m := by
  rw [SeenAlike, h]

/-- A walk does not see a new content. -/
theorem seenAlike_of_refilled {c c' : Bytes} {t t' : Option Bytes}
    (hold : d.node? l = some (.file c t)) (hnew : e.node? l = some (.file c' t'))
    (hother : ∀ k, k ≠ l → e.node? k = d.node? k) (k : Location) : d.SeenAlike e k := by
  by_cases hkl : k = l
  · rw [SeenAlike, hkl, hold, hnew]
    rfl
  · exact seenAlike_of_eq (hother k hkl)

theorem stride_congr (h : ∀ m ∈ d.strideTrail l xs, d.SeenAlike e m) :
    e.stride last l xs = d.stride last l xs := by
  induction xs generalizing l with
  | nil => rfl
  | cons x r ih =>
    cases x with
    | name n =>
      rw [strideTrail, List.forall_mem_cons] at h
      rw [stride, stride]
      split
      · rfl
      · rcases seenAlike_cases h.1 with hsame | ⟨x, y, hx, hy, hxs, hys⟩
        · rw [← hsame]
          split
          · rfl
          · next hdir =>
            rw [hdir] at h
            exact ih h.2
          · rfl
          · rfl
        · -- Neither is a directory or a link, so both stop the walk.
          rw [hx, hy]
          cases x <;> cases y <;> simp_all [Node.shape]
    | _ => exact ih h

theorem strideTrail_subset {links : Nat} : d.strideTrail l xs ⊆ d.walkTrail links l xs := by
  unfold walkTrail
  exact List.subset_append_left _ _

theorem walk_congr {links : Nat} (h : ∀ m ∈ d.walkTrail links l xs, d.SeenAlike e m) :
    e.walk .followed links l xs = d.walk .followed links l xs := by
  have hstride : e.stride .followed l xs = d.stride .followed l xs :=
    stride_congr fun m hm => h m (strideTrail_subset hm)
  fun_induction d.walk .followed links l xs with
  | case1 links l xs k hs =>
    unfold walk
    rw [hstride, hs]
  | case2 links l xs e hs =>
    unfold walk
    rw [hstride, hs]
  | case3 l xs base target rest hs =>
    unfold walk
    rw [hstride, hs]
  | case4 l xs base target rest links hs ih =>
    unfold walkTrail at h
    rw [hs] at h
    have hrest : ∀ m ∈ d.walkTrail links base (target.steps ++ rest), d.SeenAlike e m :=
      fun m hm => h m (List.mem_append_right _ hm)
    conv_lhs => unfold walk
    rw [hstride, hs]
    exact ih hrest (stride_congr fun m hm => hrest m (strideTrail_subset hm))

/-- A path leads where it did if the walk sees the same on its trail. -/
theorem locate_congr (hstart : e.start = d.start) (h : ∀ m ∈ d.trail p, d.SeenAlike e m) :
    e.locate .followed p.steps = d.locate .followed p.steps := by
  unfold locate
  rw [hstart]
  split
  · rfl
  · exact walk_congr h

/-! ## What lies on a trail -/

/-- Up to a link there are directories only, besides the link or the end. -/
private theorem stride_trail (hm : m ∈ d.strideTrail l xs) :
    match d.stride .followed l xs with
    | .arrived k => m = k ∨ d.node? m = some .directory
    | .blocked _ => True
    | .link .. => d.node? m = some .directory ∨ ∃ target, d.node? m = some (.link target) := by
  induction xs generalizing l with
  | nil => exact .inl (List.mem_singleton.mp hm)
  | cons x r ih =>
    cases x with
    | name n =>
      rw [strideTrail, List.mem_cons] at hm
      rw [stride, if_neg (by simp)]
      cases hx : d.node? (l ++ [n]) with
      | none => simp
      | some x =>
        rw [hx] at hm
        cases x with
        | directory =>
          rcases hm with rfl | hm
          · dsimp only
            cases d.stride .followed (l ++ [n]) r <;> simp [hx]
          · exact ih hm
        | link target =>
          obtain rfl := hm.resolve_right (by simp)
          simp [hx]
        | file c t =>
          obtain rfl := hm.resolve_right (by simp)
          by_cases hr : r = [] <;> simp [hr]
        | fifo =>
          obtain rfl := hm.resolve_right (by simp)
          by_cases hr : r = [] <;> simp [hr]
    | _ => exact ih hm

private theorem walk_trail {links : Nat} (hwalk : d.walk .followed links l xs = .ok k)
    (hm : m ∈ d.walkTrail links l xs) :
    m = k ∨ d.node? m = some .directory ∨ ∃ target, d.node? m = some (.link target) := by
  fun_induction d.walk .followed links l xs with
  | case1 links l xs k' hs =>
    obtain rfl : k' = k := by simpa using hwalk
    unfold walkTrail at hm
    rw [hs] at hm
    have hcases := stride_trail ((List.mem_append.mp hm).resolve_right (by simp))
    rw [hs] at hcases
    exact hcases.imp_right .inl
  | case2 => simp at hwalk
  | case3 => simp at hwalk
  | case4 l xs base target rest links hs ih =>
    unfold walkTrail at hm
    rw [hs] at hm
    rcases List.mem_append.mp hm with hm | hm
    · have hcases := stride_trail hm
      rw [hs] at hcases
      exact .inr hcases
    · exact ih hwalk hm

/-- A trail that comes to an end has nothing but directories and links on it, besides
its end. -/
theorem trail_cases (hloc : d.locate .followed p.steps = .ok k) (hm : m ∈ d.trail p) :
    m = k ∨ d.node? m = some .directory ∨ ∃ target, d.node? m = some (.link target) := by
  unfold locate at hloc
  split at hloc
  · simp at hloc
  · exact walk_trail hloc hm

private theorem end_mem_strideTrail (h : d.stride .followed l xs = .arrived k) :
    k ∈ d.strideTrail l xs := by
  induction xs generalizing l with
  | nil =>
    obtain rfl : l = k := by simpa [stride] using h
    exact List.mem_singleton_self l
  | cons x r ih =>
    cases x with
    | name n =>
      rw [stride, if_neg (by simp)] at h
      rw [strideTrail]
      cases hx : d.node? (l ++ [n]) with
      | none => simp [hx] at h
      | some x =>
        rw [hx] at h
        cases x with
        | directory => exact List.mem_cons_of_mem _ (ih h)
        | link target => simp at h
        | _ => by_cases hr : r = [] <;> simp_all
    | _ => exact ih h

private theorem end_mem_walkTrail {links : Nat} (h : d.walk .followed links l xs = .ok k) :
    k ∈ d.walkTrail links l xs := by
  fun_induction d.walk .followed links l xs with
  | case1 links l xs k' hs =>
    obtain rfl : k' = k := by simpa using h
    exact strideTrail_subset (end_mem_strideTrail hs)
  | case2 => simp at h
  | case3 => simp at h
  | case4 l xs base target rest links hs ih =>
    unfold walkTrail
    rw [hs]
    exact List.mem_append_right _ (ih h)

/-- The end of a path is on its trail. -/
theorem mem_trail_of_locate (h : d.locate .followed p.steps = .ok k) : k ∈ d.trail p := by
  unfold locate at h
  split at h
  · simp at h
  · exact end_mem_walkTrail h

/-! ## A trail that is cut -/

/-- Without a place on its trail the way up to the next link ends there. -/
private theorem stride_cut (hm : m ∈ d.strideTrail l xs) (hnone : e.node? m = none)
    (hother : ∀ k, k ≠ m → e.node? k = d.node? k) :
    e.stride .followed l xs = .blocked .notFound ∨ e.stride .followed l xs = .arrived m := by
  induction xs generalizing l with
  | nil =>
    obtain rfl := List.mem_singleton.mp hm
    exact .inr rfl
  | cons x r ih =>
    cases x with
    | name n =>
      rw [strideTrail, List.mem_cons] at hm
      rw [stride, if_neg (by simp)]
      by_cases hlast : l ++ [n] = m
      · rw [hlast, hnone]
        simp
      · have htail := hm.resolve_left (Ne.symm hlast)
        rw [hother _ hlast]
        cases hx : d.node? (l ++ [n]) with
        | none => simp [hx] at htail
        | some x =>
          rw [hx] at htail
          cases x with
          | directory => exact ih htail
          | _ => simp at htail
    | _ => exact ih hm

private theorem walk_cut {links : Nat} (hm : m ∈ d.walkTrail links l xs) (hnone : e.node? m = none)
    (hother : ∀ k, k ≠ m → e.node? k = d.node? k) :
    e.walk .followed links l xs = .error .notFound ∨ e.walk .followed links l xs = .ok m := by
  induction links generalizing l xs with
  | zero =>
    unfold walkTrail at hm
    unfold walk
    have hstride : m ∈ d.strideTrail l xs := by
      cases hs : d.stride .followed l xs <;> simpa [hs] using hm
    rcases stride_cut hstride hnone hother with hs | hs <;> simp [hs]
  | succ links ih =>
    unfold walk
    by_cases hstride : m ∈ d.strideTrail l xs
    · rcases stride_cut hstride hnone hother with hs | hs <;> simp [hs]
    · -- The walk comes to the next link as before.
      have hsame : e.stride .followed l xs = d.stride .followed l xs := by
        apply stride_congr
        intro k hk
        exact seenAlike_of_eq (hother k fun hkm => hstride (hkm ▸ hk))
      unfold walkTrail at hm
      rw [hsame]
      cases hs : d.stride .followed l xs with
      | arrived k => simp [hs, hstride] at hm
      | blocked e => simp [hs, hstride] at hm
      | link base target rest =>
        rw [hs] at hm
        exact ih ((List.mem_append.mp hm).resolve_left hstride)

/-- A path whose trail is cut is not found. -/
theorem read_of_cut (hstart : e.start = d.start) (hm : m ∈ d.trail p) (hnone : e.node? m = none)
    (hother : ∀ k, k ≠ m → e.node? k = d.node? k) : e.read p = .error .notFound := by
  unfold read status locate
  rw [hstart]
  split
  · rfl
  · rcases walk_cut hm hnone hother with hs | hs <;> simp [hs, hnone, bind, Except.bind]

/-! ## A file that is put where one may be created -/

variable (l xs) in
/-- Where a walk may create a file, one that looks for it afterwards finds it. -/
private theorem stride_created {c : Bytes} {t : Option Bytes} (hold : d.node? m = none ∨
    ∃ c t, d.node? m = some (.file c t)) (hnew : e.node? m = some (.file c t))
    (hother : ∀ k, k ≠ m → e.node? k = d.node? k) :
    match d.stride .created l xs with
    | .arrived k => k = m → e.stride .followed l xs = .arrived m
    | .blocked _ => True
    | .link base target rest => e.stride .followed l xs = .link base target rest := by
  induction xs generalizing l with
  | nil =>
    rintro rfl
    rfl
  | cons x r ih =>
    cases x with
    | name n =>
      rw [stride, stride, if_neg (by simp : ¬ (LastName.followed = .created ∧ r = [.slash]))]
      by_cases hslash : r = [.slash]
      · simp [hslash]
      · rw [if_neg fun h => hslash h.2]
        by_cases hlast : l ++ [n] = m
        · rw [hlast, hnew]
          rcases hold with hx | ⟨c', t', hx⟩ <;> rw [hx] <;> by_cases hr : r = [] <;> simp [hr]
        · rw [hother _ hlast]
          cases hx : d.node? (l ++ [n]) with
          | none => by_cases hr : r = [] <;> simp [hr, hlast]
          | some x =>
            cases x with
            | directory => exact ih _
            | link target => simp
            | file c t => by_cases hr : r = [] <;> simp [hr]
            | fifo => by_cases hr : r = [] <;> simp [hr]
    | _ => exact ih _

private theorem walk_created {links : Nat} {c : Bytes} {t : Option Bytes}
    (hwalk : d.walk .created links l xs = .ok m)
    (hold : d.node? m = none ∨ ∃ c t, d.node? m = some (.file c t))
    (hnew : e.node? m = some (.file c t)) (hother : ∀ k, k ≠ m → e.node? k = d.node? k) :
    e.walk .followed links l xs = .ok m := by
  have hcreated := stride_created l xs hold hnew hother
  fun_induction d.walk .created links l xs with
  | case1 links l xs k hs =>
    obtain rfl : k = m := by simpa using hwalk
    rw [hs] at hcreated
    unfold walk
    rw [hcreated rfl]
  | case2 => simp at hwalk
  | case3 => simp at hwalk
  | case4 l xs base target rest links hs ih =>
    rw [hs] at hcreated
    unfold walk
    rw [hcreated]
    exact ih hwalk (stride_created _ _ hold hnew hother)

/-! ## What each operation leaves of a file that can be read -/

section Read

variable {content : Bytes} {q : Path}

theorem read_eq_ok : d.read p = .ok content ↔
    ∃ l t, d.locate .followed p.steps = .ok l ∧ d.node? l = some (.file content t) := by
  unfold read status
  cases hloc : d.locate .followed p.steps with
  | error e => simp [bind, Except.bind]
  | ok l =>
    cases hx : d.node? l with
    | none => simp [bind, Except.bind, hx]
    | some x => cases x <;> simp [bind, Except.bind, hx]

/-- A path leads on to the same file, whatever content it has now. -/
theorem read_of_seenAlike (hstart : e.start = d.start) (h : ∀ m ∈ d.trail p, d.SeenAlike e m)
    (hloc : d.locate .followed p.steps = .ok l) {t : Option Bytes}
    (hfile : e.node? l = some (.file content t)) : e.read p = .ok content :=
  read_eq_ok.mpr ⟨l, t, (locate_congr hstart h).trans hloc, hfile⟩

/-- Nothing on the trail of a file is missing, and only the end is a file. -/
theorem trail_of_read (h : d.read p = .ok content) (hm : m ∈ d.trail p) :
    ∃ x, d.node? m = some x ∧
      (d.locate .followed p.steps = .ok m ∨ x = .directory ∨ ∃ target, x = .link target) := by
  obtain ⟨l, t, hloc, hfile⟩ := read_eq_ok.mp h
  rcases trail_cases hloc hm with rfl | hdir | ⟨target, hlink⟩
  · exact ⟨_, hfile, .inl hloc⟩
  · exact ⟨_, hdir, .inr (.inl rfl)⟩
  · exact ⟨_, hlink, .inr (.inr ⟨target, rfl⟩)⟩

/-- What is off the trail does not matter. -/
theorem read_of_others (h : d.read p = .ok content) (hstart : e.start = d.start)
    (hother : ∀ k, k ≠ m → e.node? k = d.node? k) (hm : m ∉ d.trail p) :
    e.read p = .ok content := by
  obtain ⟨l, t, hloc, hfile⟩ := read_eq_ok.mp h
  apply read_of_seenAlike hstart _ hloc
  · rwa [hother l fun hlm => hm (hlm ▸ mem_trail_of_locate hloc)]
  · intro k hk
    exact seenAlike_of_eq (hother k fun hkm => hm (hkm ▸ hk))

/-- A file in the same place stays on the way, whatever content it gets. -/
theorem read_of_refilled (h : d.locate .followed p.steps = .ok l) {c : Bytes} {t t' : Option Bytes}
    (hfile : d.node? l = some (.file c t)) (hstart : e.start = d.start)
    (hnew : e.node? l = some (.file content t')) (hother : ∀ k, k ≠ l → e.node? k = d.node? k) :
    e.read p = .ok content := by
  apply read_of_seenAlike hstart _ h hnew
  exact fun k _ => seenAlike_of_refilled hfile hnew hother k

/-- What a write has done: there is a file with the new content where there was one or
nothing. -/
theorem filled_of_write (h : d.write q content = .ok e) :
    ∃ l t, d.locate .created q.steps = .ok l ∧
      (d.node? l = none ∨ ∃ c t, d.node? l = some (.file c t)) ∧
      e.node? l = some (.file content t) ∧ e.start = d.start ∧
      ∀ k, k ≠ l → e.node? k = d.node? k := by
  unfold write at h
  cases hloc : d.locate .created q.steps with
  | error e' => simp [hloc, bind, Except.bind] at h
  | ok l =>
    simp only [hloc, bind, Except.bind] at h
    cases hx : d.node? l with
    | none =>
      obtain rfl : d.put l (.file content none) = e := by simpa [hx] using h
      have hl : l ≠ [] := ne_root (d := d) (by simp [hx])
      exact ⟨l, none, rfl, .inl hx, node?_put_self hl, rfl, fun k hk => node?_put_of_ne hl hk⟩
    | some x =>
      cases x with
      | file c t =>
        obtain rfl : d.put l (.file content t) = e := by simpa [hx] using h
        have hl : l ≠ [] := ne_root (d := d) (by simp [hx])
        exact ⟨l, t, rfl, .inr ⟨c, t, hx⟩, node?_put_self hl, rfl, fun k hk => node?_put_of_ne hl hk⟩
      | _ => simp [hx] at h

/-- What is written is read, links or not. -/
theorem read_write (h : d.write p content = .ok e) : e.read p = .ok content := by
  obtain ⟨l, t, hloc, hold, hnew, hstart, hother⟩ := filled_of_write h
  refine read_eq_ok.mpr ⟨l, t, ?_, hnew⟩
  unfold locate at hloc ⊢
  split at hloc
  · simp at hloc
  · next hne =>
    rw [if_neg hne, hstart]
    exact walk_created hloc hold hnew hother

/-- A write changes what is read behind another path only if it goes to the same
place. -/
theorem read_of_write (h : d.read p = .ok content) {c : Bytes} (hwrite : d.write q c = .ok e) :
    e.read p =
      .ok (if d.locate .created q.steps = d.locate .followed p.steps then c else content) := by
  obtain ⟨m, t, hlocq, hold, hnew, hstart, hother⟩ := filled_of_write hwrite
  obtain ⟨l, t', hloc, hfile⟩ := read_eq_ok.mp h
  split
  · next hsame =>
    obtain rfl : m = l := Except.ok.inj (hlocq.symm.trans (hsame.trans hloc))
    exact read_of_refilled hloc hfile hstart hnew hother
  · next hsame =>
    apply read_of_others h hstart hother
    intro hm
    obtain ⟨x, hx, hcases⟩ := trail_of_read h hm
    rcases hcases with hend | rfl | ⟨target, rfl⟩
    · exact hsame (hlocq.trans hend.symm)
    · simp [hx] at hold
    · simp [hx] at hold

/-- What a removal has done: there is nothing where something else than a directory
was. -/
theorem cut_of_remove (h : d.remove q = .ok e) :
    ∃ l, d.locate .taken q.bareSteps = .ok l ∧ d.node? l ≠ some .directory ∧ e.node? l = none ∧
      e.start = d.start ∧ ∀ k, k ≠ l → e.node? k = d.node? k := by
  unfold remove at h
  cases hloc : d.locate .taken q.bareSteps with
  | error e' => simp [hloc, bind, Except.bind] at h
  | ok l =>
    simp only [hloc, bind, Except.bind] at h
    have hdir : d.node? l ≠ some .directory := by
      intro hdir
      simp [hdir] at h
    have hl := ne_root hdir
    obtain rfl : d.erase l = e := by
      cases hx : d.node? l with
      | none => simp [hx] at h
      | some x => cases x <;> cases hslash : q.endsInSlash <;> simp_all
    refine ⟨l, rfl, hdir, by simp [node?_erase, hl], rfl, ?_⟩
    intro k hk
    rw [node?_erase_update d hl, Function.update_of_ne hk]

/-- A removal changes what is read behind another path only if it takes something from
its trail, and then nothing is found any more. -/
theorem read_of_remove (h : d.read p = .ok content) (hremove : d.remove q = .ok e) :
    e.read p = if ∃ l ∈ d.trail p, d.locate .taken q.bareSteps = .ok l then .error .notFound
      else .ok content := by
  obtain ⟨m, hlocq, -, hnone, hstart, hother⟩ := cut_of_remove hremove
  split
  · next hcut =>
    obtain ⟨l, hl, hlm⟩ := hcut
    obtain rfl : m = l := Except.ok.inj (hlocq.symm.trans hlm)
    exact read_of_cut hstart hl hnone hother
  · next hcut => exact read_of_others h hstart hother fun hm => hcut ⟨m, hm, hlocq⟩

/-- What tagging has done: nothing to a directory, and a file has kept its content. -/
theorem retagged_of_setTag {tag : Bytes} (h : d.setTag q tag = .ok e) :
    e = d ∨ ∃ l c t t', d.locate .taken q.steps = .ok l ∧ d.node? l = some (.file c t) ∧
      e.node? l = some (.file c t') ∧ e.start = d.start ∧ ∀ k, k ≠ l → e.node? k = d.node? k := by
  unfold setTag at h
  cases hloc : d.locate .taken q.steps with
  | error e' => simp [hloc, bind, Except.bind] at h
  | ok l =>
    simp only [hloc, bind, Except.bind] at h
    cases hx : d.node? l with
    | none => simp [hx] at h
    | some x =>
      cases x with
      | directory => exact .inl (by simpa [hx] using h.symm)
      | file c t =>
        obtain rfl : d.put l (.file c (some tag)) = e := by simpa [hx] using h
        have hl : l ≠ [] := ne_root (d := d) (by simp [hx])
        exact .inr ⟨l, c, t, some tag, rfl, hx, node?_put_self hl, rfl,
          fun k hk => node?_put_of_ne hl hk⟩
      | _ => simp [hx] at h

theorem read_of_setTag (h : d.read p = .ok content) {tag : Bytes} (htag : d.setTag q tag = .ok e) :
    e.read p = .ok content := by
  rcases retagged_of_setTag htag with rfl | ⟨m, c, t, t', -, hold, hnew, hstart, hother⟩
  · exact h
  · obtain ⟨l, t₀, hloc, hfile⟩ := read_eq_ok.mp h
    have halike : ∀ k, d.SeenAlike e k := seenAlike_of_refilled hold hnew hother
    -- The end of the path may be the file that got the tag.
    by_cases hlm : l = m
    · subst hlm
      obtain ⟨rfl, -⟩ : c = content ∧ t = t₀ := by simpa using hold.symm.trans hfile
      exact read_of_seenAlike hstart (fun k _ => halike k) hloc hnew
    · exact read_of_seenAlike hstart (fun k _ => halike k) hloc ((hother l hlm).trans hfile)

theorem start_make {x : Node} (h : d.make q x = .ok e) : e.start = d.start := by
  obtain ⟨l, -, -, rfl⟩ := make_of_ok h
  rfl

theorem start_makeDirectories (d : Disk) (q : Path) :
    (d.makeDirectories q).1.start = d.start :=
  makeDirectories_induction (I := fun e => e.start = d.start)
    (fun h hmake => (start_make hmake).trans h) rfl q

theorem read_of_makeDirectories (h : d.read p = .ok content) (q : Path) :
    (d.makeDirectories q).1.read p = .ok content := by
  obtain ⟨l, t, hloc, hfile⟩ := read_eq_ok.mp h
  apply read_of_seenAlike (start_makeDirectories d q) _ hloc (makeDirectories_keeps d q hfile)
  intro m hm
  obtain ⟨x, hx, -⟩ := trail_of_read h hm
  exact seenAlike_of_eq ((makeDirectories_keeps d q hx).trans hx.symm)

end Read

end Disk

end GuestSync
