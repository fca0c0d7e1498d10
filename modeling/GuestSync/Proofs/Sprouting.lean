/-
# GuestSync.Proofs.Sprouting -- making a path with anything on its way

A file may stand where a directory is to be, the path may turn back with `..` in it,
and what has been made stays when the making fails. Still each attempt adds at most
one directory, in a place that was empty, in a directory that was there, and on the
way along the components of the path. So a plain disk stays plain and keeps every
node it had; and where the making gets through, the path opens.
-/
import GuestSync.Proofs.PathMaking

namespace GuestSync.Disk

variable {d e f : Disk} {p : Path} {l m : Location} {cs : List Component}

/-! ## Where a walk ends -/

/-- A walk that ends where nothing is has gone through directories up to its last
name. -/
theorem Plain.last_of_missing (hd : d.Plain) (hl : d.node? l = some .directory) {xs : List Step}
    (h : d.stride .taken l xs = .arrived m) (hm : d.node? m = none) :
    ∃ ys n, xs = ys ++ [.name n] ∧ d.Clear l ys ∧ Step.goal l ys ++ [n] = m := by
  have hgoal := hd.linkless.goal_of_arrived h
  rcases List.eq_nil_or_concat xs with rfl | ⟨ys, x, rfl⟩
  · obtain rfl : l = m := hgoal
    simp [hl] at hm
  · rw [List.concat_eq_append] at h hgoal ⊢
    have hclear : d.Clear l ys := hd.clear_of_arrived_append (by simp) h
    have hdir := hclear.directory hd hl
    rw [Step.goal_append] at hgoal
    cases x with
    | name n => exact ⟨ys, n, rfl, hclear, hgoal⟩
    | root =>
      obtain rfl : [] = m := hgoal
      simp [node?_root] at hm
    | up =>
      have habove := hd.directory_of_prefix_directory (List.dropLast_prefix _) hdir
      rw [show (Step.goal l ys).dropLast = m from hgoal, hm] at habove
      simp at habove
    | _ =>
      rw [show Step.goal l ys = m from hgoal, hm] at hdir
      simp at hdir

/-- What a listing on a plain disk shows is what lies in the place of the path, and the
path opens if there is a directory. -/
theorem Plain.list_ok (hd : d.Plain) {ns : List Name} (h : d.list p = .ok ns) :
    ns = d.children (Step.goal d.start p.bareSteps) ∧
      (d.node? (Step.goal d.start p.bareSteps) = some .directory →
        d.Opens p (Step.goal d.start p.bareSteps)) := by
  unfold list at h
  cases hloc : d.locate .followed p.steps with
  | error e => simp [hloc, bind, Except.bind] at h
  | ok m =>
    have hgoal := hd.linkless.goal_of_locate hloc
    rw [goal_steps] at hgoal
    subst hgoal
    simp only [hloc, bind, Except.bind] at h
    refine ⟨?_, fun hdir => hd.opens ⟨hloc, hdir⟩⟩
    rcases hd.node_cases (Step.goal d.start p.bareSteps) with hx | hx | ⟨c, t, hx⟩ <;>
      rw [hx] at h
    · simp at h
    · exact (Except.ok.inj h).symm
    · rw [← Except.ok.inj h, hd.children_of_not_directory (by simp [hx])]

/-! ## What is added -/

/-- The disk `e` is `d` with some more directories, all of them on the way along some
components and in places where nothing was. -/
structure Sprouted (d e : Disk) (cs : List Component) : Prop where
  start : e.start = d.start
  plain : e.Plain
  view : ∀ m, e.node? m = d.node? m ∨
    d.node? m = none ∧ e.node? m = some .directory ∧ OnWay d.start cs m

theorem Sprouted.refl (hd : d.Plain) : d.Sprouted d cs := ⟨rfl, hd, fun _ => .inl rfl⟩

theorem Sprouted.trans (h : d.Sprouted e cs) (h' : e.Sprouted f cs) : d.Sprouted f cs := by
  refine ⟨h'.start.trans h.start, h'.plain, ?_⟩
  intro m
  rcases h'.view m with hsame | ⟨hnone, hdir, hway⟩
  · rw [hsame]
    exact h.view m
  · rcases h.view m with hold | ⟨-, hdir', -⟩
    · exact .inr ⟨hold.symm.trans hnone, hdir, h.start ▸ hway⟩
    · simp [hdir'] at hnone

theorem Sprouted.keeps (h : d.Sprouted e cs) {x : Node} (hm : d.node? m = some x) :
    e.node? m = some x := by
  rcases h.view m with hsame | ⟨hnone, -⟩
  · rw [hsame, hm]
  · simp [hnone] at hm

theorem Sprouted.start_directory (h : d.Sprouted e cs)
    (hstart : d.node? d.start = some .directory) : e.node? e.start = some .directory := by
  rw [h.start]
  exact h.keeps hstart

/-! ## Attempts -/

section Attempts

variable (hd : d.Plain) (hstart : d.node? d.start = some .directory) (hp : p.isEmpty = false)

include hd hstart hp in
/-- **One attempt** that succeeds adds one directory, to which the path leads. -/
theorem makeDirectory_ok (h : d.makeDirectory p = .ok e) :
    e.Opens p (Step.goal d.start p.bareSteps) ∧
      ∀ cs, OnWay d.start cs (Step.goal d.start p.bareSteps) → d.Sprouted e cs := by
  obtain ⟨m, hloc, hm, rfl⟩ := make_of_ok h
  obtain ⟨ys, n, hsteps, hclear, rfl⟩ :=
    hd.last_of_missing hstart (hd.linkless.arrived_of_locate hloc) hm
  have hgoal : Step.goal d.start p.bareSteps = Step.goal d.start ys ++ [n] := by
    rw [hsteps, Step.goal_append]
    rfl
  have hbefore := hclear.directory hd hstart
  have hgrown := grown_put hd (n := n) hbefore
  have hview := node?_put_update d (by simp : Step.goal d.start ys ++ [n] ≠ []) .directory
  have hmem : Step.name n ∈ p.bareSteps := by simp [hsteps]
  have hn := Path.proper_of_mem_bareSteps hmem
  rw [hgoal]
  refine ⟨⟨hp, ?_, hgoal, hgrown.way List.prefix_rfl⟩, ?_⟩
  · rw [hsteps]
    exact clear_append.mpr ⟨hclear.mono hgrown.keeps, hgrown.way List.prefix_rfl, trivial⟩
  · intro cs hway
    refine ⟨rfl, hd.of_update hview hbefore hn (by simp [hm]) (by simp), ?_⟩
    intro k
    rw [hview, Function.update_apply]
    split
    · next hk => exact .inr ⟨hk ▸ hm, rfl, hk ▸ hway⟩
    · exact .inl rfl

include hd hstart hp in
theorem sprouted_tryMake (hway : OnWay d.start cs (Step.goal d.start p.bareSteps)) :
    d.Sprouted (d.tryMake p).1 cs ∧
      ((d.tryMake p).2 = .ok () → (d.tryMake p).1.Opens p (Step.goal d.start p.bareSteps)) := by
  unfold tryMake
  cases hmake : d.makeDirectory p with
  | ok e =>
    obtain ⟨hopens, hsprout⟩ := makeDirectory_ok hd hstart hp hmake
    exact ⟨hsprout cs hway, fun _ => hopens⟩
  | error err =>
    refine ⟨.refl hd, ?_⟩
    dsimp only
    split
    · next hdir =>
      obtain ⟨l, hl⟩ := isDirectory_iff.mp hdir
      have hopens := hd.opens hl
      rw [hopens.goal]
      exact fun _ => hopens
    · simp

include hd hstart in
/-- Several attempts, each of them on the way along the components. -/
theorem sprouted_makeFirst {ps : List Path}
    (hps : ∀ p ∈ ps, p.isEmpty = false ∧ OnWay d.start cs (Step.goal d.start p.bareSteps)) :
    d.Sprouted (d.makeFirst ps).1 cs ∧
      ((d.makeFirst ps).2 = .ok () → ∀ p ∈ ps.head?,
        (d.makeFirst ps).1.Opens p (Step.goal d.start p.bareSteps)) := by
  induction ps with
  | nil => exact ⟨.refl hd, by simp⟩
  | cons p above ih =>
    obtain ⟨hp, hway⟩ := hps p (by simp)
    simp only [List.head?_cons, Option.mem_some_iff, forall_eq']
    by_cases hfirst : d.makeDirectory p = .error .notFound
    · obtain ⟨hsprout, -⟩ := ih fun q hq => hps q (by simp [hq])
      rcases hmade : d.makeFirst above with ⟨e, err | u⟩ <;> rw [hmade] at hsprout
      · rw [makeFirst, hfirst, hmade]
        exact ⟨hsprout, by simp⟩
      · -- With what lies before it made, the path is tried once more.
        have hway' : OnWay e.start cs (Step.goal e.start p.bareSteps) := by rwa [hsprout.start]
        have htry := sprouted_tryMake hsprout.plain (hsprout.start_directory hstart) hp hway'
        rw [hsprout.start] at htry
        rw [makeFirst_of_notFound hfirst hmade]
        exact ⟨hsprout.trans htry.1, htry.2⟩
    · rw [makeFirst_of_ne_notFound hfirst]
      exact sprouted_tryMake hd hstart hp hway

include hd hstart hp in
/-- **Making a path.** -/
theorem sprouted_makeDirectories :
    d.Sprouted (d.makeDirectories p).1 p.components ∧
      ((d.makeDirectories p).2 = .ok () →
        (d.makeDirectories p).1.Opens p (Step.goal d.start p.bareSteps)) := by
  have hne := Path.components_ne_nil hp
  have hps : ∀ q ∈ p :: p.enclosing,
      q.isEmpty = false ∧ OnWay d.start p.components (Step.goal d.start q.bareSteps) := by
    intro q hq
    rcases List.mem_cons.mp hq with rfl | hq
    · refine ⟨hp, onWay_of_prefix_goal hne ?_⟩
      rw [Path.goal_components]
    · obtain ⟨xs, hxs, rfl⟩ := List.mem_map.mp hq
      obtain ⟨hxne, -, hpre⟩ := Path.mem_beginnings.mp hxs
      have hspell := (Path.spellable_components p).mono hpre
      refine ⟨Path.isEmpty_ofComponents hxne hspell, xs, hxne, hpre, ?_⟩
      rw [Path.bareSteps, Path.written_ofComponents hxne hspell]
  obtain ⟨hsprout, hopens⟩ := sprouted_makeFirst hd hstart hps
  rw [makeDirectories, if_neg (by simp [hp])]
  exact ⟨hsprout, fun hok => hopens hok p (by simp)⟩

end Attempts

end GuestSync.Disk
