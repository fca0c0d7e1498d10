/-
# GuestSync.Proofs.StraightPaths -- paths that never turn back

Without `..` in it a path has one place, and the way to it is the way to that place
and nothing else. So a plain disk needs only to be asked about the places that the
one place lies in: if there is a directory then the path opens it, if nothing is there
and no file on the way then the path is not found, and making the path makes these
directories and no others.
-/
import GuestSync.Proofs.PathMaking

namespace GuestSync

theorem Step.prefix_goal {cs : List Component} (hup : .up ∉ cs) (hroot : .root ∉ cs)
    (l : Location) : l <+: goal l (cs.map Step.ofComponent) := by
  induction cs generalizing l with
  | nil => exact List.prefix_rfl
  | cons c r ih =>
    rw [List.mem_cons, not_or] at hup hroot
    cases c with
    | root => exact absurd rfl hroot.1
    | here => exact ih hup.2 hroot.2 l
    | up => exact absurd rfl hup.1
    | name n => exact (List.prefix_append l [n]).trans (ih hup.2 hroot.2 (l ++ [n]))

/-- Along components that never turn back, what is on the way lies above the end. -/
theorem onWay_iff {cs : List Component} {l m : Location} (hne : cs ≠ []) (hup : .up ∉ cs)
    (hroot : .root ∉ cs.tail) : OnWay l cs m ↔ m <+: Step.goal l (cs.map Step.ofComponent) := by
  refine ⟨?_, onWay_of_prefix_goal hne⟩
  rintro ⟨xs, hxs, ⟨ys, rfl⟩, hm⟩
  rw [List.tail_append_of_ne_nil hxs] at hroot
  rw [List.map_append, Step.goal_append]
  apply hm.trans
  apply Step.prefix_goal
  · exact fun h => hup (List.mem_append_right xs h)
  · exact fun h => hroot (List.mem_append_right xs.tail h)

namespace Disk

theorem WayFree.no_content {d : Disk} {l m : Location} (h : d.WayFree l) (hm : m <+: l) :
    contentOf (d.node? m) = none := by
  rcases h m hm with hx | hx <;> rw [hx] <;> rfl

/-- The path is free of `..`, and its place is the location, whatever is there. -/
structure Points (d : Disk) (p : Path) (l : Location) : Prop where
  nonempty : p.isEmpty = false
  straight : .up ∉ p.components
  goal : Step.goal d.start p.bareSteps = l

namespace Points

variable {d e : Disk} {p q : Path} {l m : Location} {n : Name}

theorem of_start (h : d.Points p l) (hstart : e.start = d.start) : e.Points p l :=
  ⟨h.nonempty, h.straight, by rw [hstart, h.goal]⟩

theorem join (h : d.Points p l) (hq : q.Inner) : d.Points (p.join q) (l ++ q.names) := by
  refine ⟨Path.isEmpty_join h.nonempty hq, ?_, ?_⟩
  · rw [Path.components_join h.nonempty hq]
    simpa using h.straight
  · rw [Path.goal_join h.nonempty hq, h.goal]

theorem child (h : d.Points p l) (hn : Name.Proper n) : d.Points (p.child n) (l ++ [n]) := by
  have hjoin := h.join (Path.inner_ofName hn)
  rwa [show (⟨n⟩ : Path).names = [n] by rw [Path.names, Path.written_ofName hn]; rfl] at hjoin

theorem onWay_components (h : d.Points p l) : OnWay d.start p.components m ↔ m <+: l := by
  rw [onWay_iff (Path.components_ne_nil h.nonempty) h.straight (Path.spellable_components p).2,
    Path.goal_components, h.goal]

theorem onWay_written (h : d.Points p l) : OnWay d.start p.written m ↔ m <+: l := by
  have hup : .up ∉ p.written := by
    intro hmem
    exact h.straight (Path.mem_components_of_mem_written hmem (by simp))
  rw [onWay_iff (Path.written_ne_nil h.nonempty) hup (Path.root_not_mem_tail_written p)]
  exact iff_of_eq (congrArg (m <+: ·) h.goal)

/-! ## What the path leads to -/

theorem opens (h : d.Points p l) (hd : d.Plain) (hl : d.node? l = some .directory) :
    d.Opens p l := by
  refine ⟨h.nonempty, ?_, h.goal, hl⟩
  apply clear_of_onWay
  intro m hm
  exact hd.directory_of_prefix_directory (h.onWay_written.mp hm) hl

theorem isDirectory_iff (h : d.Points p l) (hd : d.Plain) :
    d.isDirectory p = true ↔ d.node? l = some .directory := by
  rw [Disk.isDirectory_iff]
  constructor
  · rintro ⟨m, hm⟩
    rw [← h.goal, (hd.opens hm).goal]
    exact hm.2
  · intro hl
    exact ⟨l, (h.opens hd hl).directoryAt⟩

theorem fileFree_written (h : d.Points p l) (hfree : d.WayFree l) :
    d.FileFree d.start p.written :=
  fun _ hm => hfree.no_content (h.onWay_written.mp hm)

theorem fileFree_components (h : d.Points p l) (hfree : d.WayFree l) :
    d.FileFree d.start p.components :=
  fun _ hm => hfree.no_content (h.onWay_components.mp hm)

/-- A path that nothing stands in the way of is not found if its place is empty. -/
theorem read_missing (h : d.Points p l) (hd : d.Plain) (hstart : d.node? d.start = some .directory)
    (hfree : d.WayFree l) (hl : d.node? l = none) : d.read p = .error .notFound := by
  have hno : ¬ d.Clear d.start (p.written.map Step.ofComponent) := by
    intro hclear
    have hdir := hclear.directory hd hstart
    rw [show Step.goal d.start (p.written.map Step.ofComponent) = l from h.goal, hl] at hdir
    simp at hdir
  obtain ⟨xs, k, ys, hw, hxs, hk⟩ := ((h.fileFree_written hfree).clear_or_missing hd).resolve_left hno
  have hsteps : p.steps = xs.map Step.ofComponent ++
      .name k :: (ys.map Step.ofComponent ++ if p.endsInSlash then [.slash] else []) := by
    simp [Path.steps, Path.bareSteps, hw, Step.ofComponent]
  have hstride : d.stride .followed d.start p.steps = .blocked .notFound := by
    rw [hsteps, stride_to_missing .followed _ (by simp) hxs hk, if_neg (by simp)]
  rw [read, status, locate_of_blocked (Path.steps_ne_nil h.nonempty) hstride]
  rfl

/-- Making the path grows its one way. -/
theorem grown (h : d.Points p l) (hlaid : d.Laid e p.components) : d.Grown e l := by
  refine ⟨hlaid.start, ?_⟩
  funext m
  unfold withWay
  split
  · next hm => exact hlaid.way m (h.onWay_components.mpr hm)
  · next hm => exact hlaid.others m fun hway => hm (h.onWay_components.mp hway)

/-- A listing below the path goes through it. -/
theorem opens_of_list (h : d.Points p l) (hd : d.Plain)
    (hstart : d.node? d.start = some .directory) (hq : q.Inner) {ns : List Name}
    (hlist : d.list (p.join q) = .ok ns) : d.Opens p l := by
  have hclear : d.Clear d.start p.bareSteps := by
    unfold list at hlist
    cases hloc : d.locate .followed (p.join q).steps with
    | error e => simp [hloc, bind, Except.bind] at hlist
    | ok m =>
      have harrived := hd.linkless.arrived_of_locate hloc
      rw [Path.steps, Path.bareSteps_join h.nonempty hq, List.append_assoc] at harrived
      apply hd.clear_of_arrived_append _ harrived
      simp [Path.bareSteps, Path.written_ne_nil hq.nonempty]
  refine ⟨h.nonempty, hclear, h.goal, ?_⟩
  rw [← h.goal]
  exact hclear.directory hd hstart

end Points

end Disk

end GuestSync
