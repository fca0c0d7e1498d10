/-
# GuestSync.Proofs.DistinctSubdirs -- when two subdirectories are one directory

A layout is checked for subdirectories that are listed twice. The check compares
components, and there a `.` in front of a relative path counts as one; but a run joins
each subdirectory to a root, and inside a path a `.` is without effect. So the check
lets two spellings through that a run takes for one directory: a path and the same path
behind a `.`. Main statement: it lets no others through, so no directory is listed more
than twice.
-/
import GuestSync.Proofs.PathNames
import GuestSync.Sync.Run

namespace GuestSync

namespace Path

/-- The components that lead somewhere: all but the `.` segments. -/
def moves (p : Path) : List Component := p.components.filter (· != .here)

/-- An inner path is its names, or its names behind one `.`. -/
theorem Inner.components_cases {p : Path} (h : p.Inner) :
    p.components = p.names.map .name ∨ p.components = .here :: p.names.map .name := by
  unfold components names
  have hinside := h.inside
  cases hw : p.written with
  | nil => exact absurd hw (written_ne_nil h.nonempty)
  | cons c r =>
    rw [hw] at hinside
    cases hinside with
    | here hr => exact .inr (congrArg _ hr.filter_here)
    | name n hr => exact .inl (congrArg _ hr.filter_here)

/-- Joined to one path, inner paths lead to the same place if they have the same names. -/
theorem moves_join_eq_iff {root p q : Path} (hroot : root.isEmpty = false) (hp : p.Inner)
    (hq : q.Inner) : (root.join p).moves = (root.join q).moves ↔ p.names = q.names := by
  have hnames : ∀ ns : List Name, (ns.map Component.name).filter (· != .here) =
      ns.map Component.name := by
    intro ns
    simp [List.filter_eq_self]
  have hinj : Function.Injective Component.name := fun _ _ h => Component.name.inj h
  rw [moves, moves, components_join hroot hp, components_join hroot hq, List.filter_append,
    List.filter_append, List.append_cancel_left_eq, hnames, hnames]
  exact hinj.list_map.eq_iff

/-- Paths of the same names that compare as different are one path and the same behind a
`.`. -/
theorem names_eq_iff {p q : Path} (hp : p.Inner) (hq : q.Inner)
    (hne : p.components ≠ q.components) :
    p.names = q.names ↔
      p.components = .here :: q.components ∨ q.components = .here :: p.components := by
  have hread : ∀ ns : List Name, Component.names (ns.map .name) = ns := Component.names_map_name
  constructor
  · intro hsame
    rcases hp.components_cases with h | h <;> rcases hq.components_cases with h' | h' <;>
      rw [h, h', hsame] at hne ⊢
    · exact absurd rfl hne
    · exact .inr rfl
    · exact .inl rfl
    · exact absurd rfl hne
  · intro hbehind
    -- The names are read off the components, whether a `.` is in front or not.
    have hnames : ∀ r : Path, r.Inner → Component.names r.components = r.names := by
      intro r hr
      rcases hr.components_cases with h | h <;> simp [h]
    rw [← hnames p hp, ← hnames q hq]
    rcases hbehind with h | h <;> rw [h, Component.names_here]

end Path

namespace Layout

private theorem pairwise_of_checkSubdirs {seen ps : List Path}
    (h : checkSubdirs seen ps = .ok ()) :
    (∀ p ∈ ps, ∀ q ∈ seen, q.components ≠ p.components) ∧
      ps.Pairwise fun p q => p.components ≠ q.components := by
  induction ps generalizing seen with
  | nil => simp
  | cons p r ih =>
    unfold checkSubdirs at h
    split_ifs at h with hempty hescapes hseen
    obtain ⟨hbefore, hpairwise⟩ := ih h
    refine ⟨?_, List.pairwise_cons.mpr ⟨fun q hq => hbefore q hq p (by simp), hpairwise⟩⟩
    intro q hq
    rcases List.mem_cons.mp hq with rfl | hq
    · simpa [Path.same] using hseen
    · exact fun q' hq' => hbefore q hq q' (by simp [hq'])

/-- No two subdirectories of a layout that is accepted compare as equal. -/
theorem pairwise_of_check {layout : Layout} (h : layout.check = .ok ()) :
    layout.subdirs.Pairwise fun p q => p.components ≠ q.components := by
  unfold check at h
  split_ifs at h
  cases hsubdirs : checkSubdirs [] layout.subdirs with
  | error e => simp [hsubdirs, bind, Except.bind] at h
  | ok u => exact (pairwise_of_checkSubdirs hsubdirs).2

theorem components_ne_of_check {layout : Layout} (h : layout.check = .ok ()) {i j : Nat}
    {p q : Path} (hi : layout.subdirs[i]? = some p) (hj : layout.subdirs[j]? = some q)
    (hij : i ≠ j) : p.components ≠ q.components := by
  have hpairwise := List.pairwise_iff_getElem.mp (pairwise_of_check h)
  obtain ⟨hilt, rfl⟩ := List.getElem?_eq_some_iff.mp hi
  obtain ⟨hjlt, rfl⟩ := List.getElem?_eq_some_iff.mp hj
  rcases Nat.lt_or_gt_of_ne hij with hlt | hlt
  · exact hpairwise i j hilt hjlt hlt
  · exact (hpairwise j i hjlt hilt hlt).symm

section Accepted

variable {layout : Layout} {root p q r : Path} {i j k : Nat}

/-- **Subdirectories that are one directory.** In a layout that is accepted, the paths of
two different places in the list lead from a root to the same place exactly if one of
them is the other behind a `.`. So among any three places two are different
directories. -/
theorem one_directory_iff (hcheck : layout.check = .ok ()) (hroot : root.isEmpty = false)
    (hi : layout.subdirs[i]? = some p) (hj : layout.subdirs[j]? = some q) (hij : i ≠ j) :
    ((root.join p).moves = (root.join q).moves ↔
      p.components = .here :: q.components ∨ q.components = .here :: p.components) ∧
    ∀ k r, layout.subdirs[k]? = some r → k ≠ i → k ≠ j →
      ¬ ((root.join p).moves = (root.join q).moves ∧
        (root.join q).moves = (root.join r).moves) := by
  have hinner := Path.inner_of_check hcheck
  have hiff : ∀ {a b : Nat} {x y : Path}, layout.subdirs[a]? = some x →
      layout.subdirs[b]? = some y → a ≠ b → ((root.join x).moves = (root.join y).moves ↔
        x.components = .here :: y.components ∨ y.components = .here :: x.components) := by
    intro a b x y hx hy hab
    have hx' := hinner x (List.mem_of_getElem? hx)
    have hy' := hinner y (List.mem_of_getElem? hy)
    rw [Path.moves_join_eq_iff hroot hx' hy',
      Path.names_eq_iff hx' hy' (components_ne_of_check hcheck hx hy hab)]
  refine ⟨hiff hi hj hij, ?_⟩
  rintro k r hk hki hkj ⟨hpq, hqr⟩
  -- The lengths of any two would differ by one.
  have hlength : ∀ {x y : Path}, (x.components = .here :: y.components ∨
      y.components = .here :: x.components) →
        x.components.length = y.components.length + 1 ∨
          y.components.length = x.components.length + 1 := by
    rintro x y (h | h)
    · exact .inl (by rw [h, List.length_cons])
    · exact .inr (by rw [h, List.length_cons])
  have h1 := hlength ((hiff hi hj hij).mp hpq)
  have h2 := hlength ((hiff hj hk (Ne.symm hkj)).mp hqr)
  have h3 := hlength ((hiff hi hk (Ne.symm hki)).mp (hpq.trans hqr))
  omega

end Accepted

end Layout

namespace Sample

/-- A layout with one subdirectory in two spellings. -/
def respelled : Layout where
  localRoot := Path.ofString "local/."
  guestRoot := Path.ofString "guest"
  subdirs := [Path.ofString "lib", Path.ofString ".//.", Path.ofString "./lib/"]
  rules := .standard

theorem check_respelled : respelled.check = .ok () := by decide +kernel

/-- One source file. -/
def oneFile : Disk where
  start := []
  nodes := [([Utf8.ofString "local"], .directory),
    ([Utf8.ofString "local", Utf8.ofString "lib"], .directory),
    ([Utf8.ofString "local", Utf8.ofString "lib", Utf8.ofString "a.c"],
      .file (Utf8.ofString "x\n") none)]

end Sample

/-- The first and the third place in the list are one directory, and the second is
another. -/
theorem one_directory_iff_sample :
    (Sample.respelled.localRoot.join (Path.ofString "lib")).moves =
        (Sample.respelled.localRoot.join (Path.ofString "./lib/")).moves ∧
      (Sample.respelled.localRoot.join (Path.ofString "./lib/")).moves ≠
        (Sample.respelled.localRoot.join (Path.ofString ".//.")).moves := by
  have hroot : Sample.respelled.localRoot.isEmpty = false := by decide +kernel
  obtain ⟨hiff, hthird⟩ := Layout.one_directory_iff (i := 0) (j := 2) Sample.check_respelled hroot
    rfl rfl (by decide)
  have hsame := hiff.mpr (by decide +kernel)
  exact ⟨hsame, fun h => hthird 1 _ rfl (by decide) (by decide) ⟨hsame, h⟩⟩

/-- A layout may be accepted although two places in its list are one directory, and then a
push deals with the one file there twice. -/
theorem respelled_subdir_accepted :
    Sample.respelled.check = .ok () ∧
      Sample.respelled.subdirs[0]? = some (Path.ofString "lib") ∧
      Sample.respelled.subdirs[2]? = some (Path.ofString "./lib/") ∧
      (Sample.respelled.localRoot.join (Path.ofString "lib")).moves =
        (Sample.respelled.localRoot.join (Path.ofString "./lib/")).moves ∧
      ((Run.sync Sample.respelled ⟨.push, false, .disk⟩).run
        (Session.start Sample.oneFile)).2.tagCalls.map TagCall.path =
          [Path.ofString "guest/lib/a.c", Path.ofString "guest/./lib/a.c"] := by
  refine ⟨Sample.check_respelled, rfl, rfl, ?_, ?_⟩ <;> decide +kernel

end GuestSync
