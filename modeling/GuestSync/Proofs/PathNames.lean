/-
# GuestSync.Proofs.PathNames -- the names that a path is made of

A subdirectory is kept in the spelling it was given, and a run only ever joins
paths: the root, the subdirectory, an entry. This module says what such a joined
path is made of. Joining an inner path, one that a checked layout admits, adds
its names to what the first path is made of and nothing else; `.` segments and
repeated slashes stay without effect. The directories that a path lies in are
spelled from its components and read back as the same components.
-/
import GuestSync.Layout
import Mathlib

namespace GuestSync

/-- A name that an entry of a directory can have. -/
structure Name.Proper (n : Name) : Prop where
  ne_nil : n ≠ []
  no_slash : Ascii.slash ∉ n
  ne_here : n ≠ [Ascii.dot]
  ne_up : n ≠ [Ascii.dot, Ascii.dot]

instance (n : Name) : Decidable n.Proper :=
  decidable_of_iff (n ≠ [] ∧ Ascii.slash ∉ n ∧ n ≠ [Ascii.dot] ∧ n ≠ [Ascii.dot, Ascii.dot])
    ⟨fun h => ⟨h.1, h.2.1, h.2.2.1, h.2.2.2⟩, fun h => ⟨h.1, h.2, h.3, h.4⟩⟩

namespace Component

/-- The name in a component. -/
def name? : Component → Option Name
  | .name n => some n
  | _ => none

/-- The names among components, in order. -/
def names (cs : List Component) : List Name := cs.filterMap name?

@[simp] theorem names_nil : names [] = [] := rfl

@[simp] theorem names_here (r : List Component) : names (.here :: r) = names r := rfl

@[simp] theorem names_name (n : Name) (r : List Component) : names (.name n :: r) = n :: names r :=
  rfl

/-- Components that lead from a directory to itself or to something below it. -/
inductive Inside : List Component → Prop
  | nil : Inside []
  | here {r : List Component} : Inside r → Inside (.here :: r)
  | name (n : Name) {r : List Component} : Inside r → Inside (.name n :: r)

theorem inside_of_forall {cs : List Component} (h : ∀ c ∈ cs, c = .here ∨ ∃ n, c = .name n) :
    Inside cs := by
  induction cs with
  | nil => exact .nil
  | cons c r ih =>
    have hr : Inside r := ih fun c hc => h c (by simp [hc])
    rcases h c (by simp) with rfl | ⟨n, rfl⟩
    · exact .here hr
    · exact .name n hr

theorem inside_names (ns : List Name) : Inside (ns.map .name) := by
  induction ns with
  | nil => exact .nil
  | cons n r ih => exact .name n ih

@[simp] theorem names_map_name (ns : List Name) : names (ns.map .name) = ns := by
  induction ns with
  | nil => rfl
  | cons n r ih => rw [List.map_cons, names_name, ih]

theorem Inside.filter_here {cs : List Component} (h : Inside cs) :
    cs.filter (· != .here) = (names cs).map .name := by
  induction h with
  | nil => rfl
  | here _ ih => rw [List.filter_cons_of_neg (by simp), ih, names_here]
  | name n _ ih => rw [List.filter_cons_of_pos (by simp), ih, names_name, List.map_cons]

/-- Behind no name at all there are only `.` segments. -/
theorem Inside.getLast?_of_names_nil {cs : List Component} (h : Inside cs) (hne : cs ≠ [])
    (hnames : names cs = []) : cs.getLast? = some .here := by
  induction h with
  | nil => exact absurd rfl hne
  | @here r _ ih =>
    by_cases hr : r = []
    · simp [hr]
    · rw [List.getLast?_cons_of_ne_nil hr, ih hr hnames]
  | name n _ _ => simp at hnames

end Component

namespace Path

/-! ## Segments -/

theorem segmentsOf_ne_nil (bs : Bytes) : segmentsOf bs ≠ [] := by
  cases bs with
  | nil => simp [segmentsOf]
  | cons b r =>
    unfold segmentsOf
    split
    · simp
    · split <;> simp

theorem no_slash_of_mem_segmentsOf {bs s : Bytes} (h : s ∈ segmentsOf bs) : Ascii.slash ∉ s := by
  induction bs generalizing s with
  | nil => simp_all [segmentsOf]
  | cons b r ih =>
    unfold segmentsOf at h
    split at h
    · rcases List.mem_cons.mp h with rfl | h
      · simp
      · exact ih h
    · next hb =>
      split at h
      · next hr => exact absurd hr (segmentsOf_ne_nil r)
      · next s' ss hr =>
        rcases List.mem_cons.mp h with rfl | h
        · have hs' : Ascii.slash ∉ s' := ih (by rw [hr]; simp)
          simpa [List.mem_cons, Ne.symm hb] using hs'
        · exact ih (by rw [hr]; simp [h])

/-- A slash ends the segment before it. -/
theorem segmentsOf_append_slash (a b : Bytes) :
    segmentsOf (a ++ Ascii.slash :: b) = segmentsOf a ++ segmentsOf b := by
  induction a with
  | nil => simp [segmentsOf]
  | cons c r ih =>
    by_cases hc : c = Ascii.slash
    · simp [segmentsOf, hc, ih]
    · cases hr : segmentsOf r with
      | nil => exact absurd hr (segmentsOf_ne_nil r)
      | cons s ss => simp [segmentsOf, hc, ih, hr]

theorem segmentsOf_of_no_slash {s : Bytes} (h : Ascii.slash ∉ s) : segmentsOf s = [s] := by
  induction s with
  | nil => rfl
  | cons b r ih =>
    rw [List.mem_cons, not_or] at h
    simp [segmentsOf, Ne.symm h.1, ih h.2]

theorem segmentsOf_joinSegments {ss : List Bytes} (hne : ss ≠ [])
    (h : ∀ s ∈ ss, Ascii.slash ∉ s) : segmentsOf (joinSegments ss) = ss := by
  induction ss with
  | nil => exact absurd rfl hne
  | cons s r ih =>
    have hs : segmentsOf s = [s] := segmentsOf_of_no_slash (h s (by simp))
    cases r with
    | nil => simpa [joinSegments] using hs
    | cons t r =>
      rw [joinSegments, segmentsOf_append_slash, hs, ih (by simp) fun u hu => h u (by simp [hu])]
      · rfl
      · simp

/-! ## What a path is made of -/

theorem componentOf_name {n : Name} (h : Name.Proper n) : componentOf n = some (.name n) := by
  simp [componentOf, h.ne_nil, h.ne_here, h.ne_up]

theorem proper_of_componentOf {s n : Bytes} (hs : Ascii.slash ∉ s)
    (h : componentOf s = some (.name n)) : Name.Proper n := by
  unfold componentOf at h
  split at h
  · simp at h
  · split at h
    · simp at h
    · split at h
      · simp at h
      · simp only [Option.some.injEq, Component.name.injEq] at h
        subst h
        exact ⟨‹_›, hs, ‹_›, ‹_›⟩

/-- Every name that is written in a path can be that of an entry. -/
theorem proper_of_mem_written {p : Path} {n : Name} (h : .name n ∈ p.written) : Name.Proper n := by
  rw [written, List.mem_append] at h
  rcases h with h | h
  · split at h <;> simp at h
  · obtain ⟨s, hs, hn⟩ := List.mem_filterMap.mp h
    exact proper_of_componentOf (no_slash_of_mem_segmentsOf hs) hn

theorem componentOf_ne_root (s : Bytes) : componentOf s ≠ some .root := by
  unfold componentOf
  repeat' split
  all_goals simp

theorem written_ne_nil {p : Path} (h : p.isEmpty = false) : p.written ≠ [] := by
  obtain ⟨bs⟩ := p
  cases bs with
  | nil => simp [isEmpty] at h
  | cons b r =>
    by_cases hb : b = Ascii.slash
    · simp [written, isAbsolute, hb]
    · cases hr : segmentsOf r with
      | nil => exact absurd hr (segmentsOf_ne_nil r)
      | cons s ss =>
        have hc : (componentOf (b :: s)).isSome := by
          unfold componentOf
          repeat' split
          all_goals simp_all
        obtain ⟨c, hc⟩ := Option.isSome_iff_exists.mp hc
        simp [written, segments, segmentsOf, hb, hr, hc]

theorem components_ne_nil {p : Path} (h : p.isEmpty = false) : p.components ≠ [] := by
  obtain ⟨c, r, hw⟩ := List.exists_cons_of_ne_nil (written_ne_nil h)
  simp [components, hw]

/-- The components are what is written, without `.` behind the first place. -/
theorem mem_components_of_mem_written {p : Path} {c : Component} (h : c ∈ p.written)
    (hc : c ≠ .here) : c ∈ p.components := by
  unfold components
  split
  · simp_all
  · next c' r hw =>
    rw [hw] at h
    rcases List.mem_cons.mp h with rfl | h
    · simp
    · simp [h, hc]

/-- The names in a path, in order. -/
def names (p : Path) : List Name := Component.names p.written

theorem proper_of_mem_names {p : Path} {n : Name} (h : n ∈ p.names) : Name.Proper n := by
  obtain ⟨c, hc, hn⟩ := List.mem_filterMap.mp h
  cases c <;> simp only [Component.name?, Option.some.injEq, reduceCtorEq] at hn
  subst hn
  exact proper_of_mem_written hc

/-- A path that stays inside the directory it is taken in. -/
structure Inner (p : Path) : Prop where
  nonempty : p.isEmpty = false
  stays : Layout.escapes p = false

private theorem inner_of_checkSubdirs {qs seen : List Path}
    (h : Layout.checkSubdirs seen qs = .ok ()) : ∀ q ∈ qs, q.Inner := by
  induction qs generalizing seen with
  | nil => simp
  | cons p r ih =>
    unfold Layout.checkSubdirs at h
    split_ifs at h with hempty hescapes hseen
    intro q hq
    rcases List.mem_cons.mp hq with rfl | hq
    · exact ⟨by simpa using hempty, by simpa using hescapes⟩
    · exact ih h q hq

/-- The subdirectories of a layout that is accepted stay inside its roots. -/
theorem inner_of_check {layout : Layout} (h : layout.check = .ok ()) :
    ∀ q ∈ layout.subdirs, q.Inner := by
  unfold Layout.check at h
  split_ifs at h
  cases hsubdirs : Layout.checkSubdirs [] layout.subdirs with
  | error e => simp [hsubdirs, bind, Except.bind] at h
  | ok u => exact inner_of_checkSubdirs hsubdirs

/-- The roots of a layout that is accepted are given. -/
theorem roots_of_check {layout : Layout} (h : layout.check = .ok ()) (direction : Direction) :
    (layout.sourceRoot direction).isEmpty = false ∧
      (layout.destinationRoot direction).isEmpty = false := by
  unfold Layout.check at h
  split_ifs at h with hlocal hguest hsubdirs
  rw [Bool.not_eq_true] at hlocal hguest
  cases direction
  · exact ⟨hlocal, hguest⟩
  · exact ⟨hguest, hlocal⟩

theorem Inner.inside {p : Path} (h : p.Inner) : Component.Inside p.written := by
  apply Component.inside_of_forall
  intro c hc
  by_cases hhere : c = .here
  · exact .inl hhere
  · have hmem := mem_components_of_mem_written hc hhere
    have hstay := h.stays
    simp only [Layout.escapes, List.any_eq_false] at hstay
    have hc := hstay c hmem
    cases c <;> simp_all

theorem Inner.not_absolute {p : Path} (h : p.Inner) : p.isAbsolute = false := by
  cases ha : p.isAbsolute with
  | false => rfl
  | true =>
    have hw : p.written = .root :: p.segments.filterMap componentOf := by simp [written, ha]
    have hin := h.inside
    rw [hw] at hin
    nomatch hin

/-- The path of one entry name is inner and made of that name. -/
theorem written_ofName {n : Name} (h : Name.Proper n) : (⟨n⟩ : Path).written = [.name n] := by
  have habs : (⟨n⟩ : Path).isAbsolute = false := by
    cases n with
    | nil => rfl
    | cons b r =>
      have hb : b ≠ Ascii.slash := fun hb => h.no_slash (by simp [hb])
      simp [isAbsolute, hb]
  simp [written, habs, segments, segmentsOf_of_no_slash h.no_slash, componentOf_name h]

theorem inner_ofName {n : Name} (h : Name.Proper n) : (⟨n⟩ : Path).Inner := by
  refine ⟨by simp [isEmpty, h.ne_nil], ?_⟩
  simp [Layout.escapes, components, written_ofName h]

/-! ## Joined paths -/

theorem isEmpty_join {p q : Path} (hp : p.isEmpty = false) (hq : q.Inner) :
    (p.join q).isEmpty = false := by
  unfold join
  simp only [hq.not_absolute, hp, Bool.or_self, Bool.false_eq_true, ↓reduceIte]
  split <;> simp_all [isEmpty]

/-- What is written in a joined path is what is written in its two parts. -/
theorem written_join {p q : Path} (hp : p.isEmpty = false) (hq : q.isAbsolute = false) :
    (p.join q).written = p.written ++ q.written := by
  obtain ⟨a⟩ := p
  obtain ⟨b⟩ := q
  have ha : a ≠ [] := by simpa [isEmpty] using hp
  have hq' : (⟨b⟩ : Path).written = (segmentsOf b).filterMap componentOf := by
    simp [written, hq, segments]
  -- either way the joined octets read `x / b`, where `x` has the components of `a`
  obtain ⟨x, hx, hseg, habs⟩ : ∃ x, ((⟨a⟩ : Path).join ⟨b⟩).bytes = x ++ Ascii.slash :: b ∧
      (segmentsOf x).filterMap componentOf = (segmentsOf a).filterMap componentOf ∧
      ((⟨x ++ Ascii.slash :: b⟩ : Path).isAbsolute = (⟨a⟩ : Path).isAbsolute) := by
    by_cases hend : (⟨a⟩ : Path).endsInSlash
    · obtain ⟨x, rfl⟩ : ∃ x, a = x ++ [Ascii.slash] := by
        simp only [endsInSlash, beq_iff_eq] at hend
        exact List.getLast?_eq_some_iff.mp hend
      refine ⟨x, by simp [join, hq, hp, hend], ?_, ?_⟩
      · simp [segmentsOf_append_slash, segmentsOf, componentOf]
      · cases x <;> simp [isAbsolute]
    · refine ⟨a, by simp [join, hq, hp, hend], rfl, ?_⟩
      cases a with
      | nil => exact absurd rfl ha
      | cons c r => simp [isAbsolute]
  have hjoin : (⟨a⟩ : Path).join ⟨b⟩ = ⟨x ++ Ascii.slash :: b⟩ := by rw [← hx]
  rw [hjoin, hq', written, habs, segments, segmentsOf_append_slash, List.filterMap_append, hseg,
    ← List.append_assoc, written, segments]

theorem endsInSlash_join {p q : Path} (hp : p.isEmpty = false) (hq : q.Inner) :
    (p.join q).endsInSlash = q.endsInSlash := by
  have hne : q.bytes ≠ [] := by simpa [isEmpty] using hq.nonempty
  have hlast : ∀ a : Bytes, (a ++ q.bytes).getLast? = q.bytes.getLast? := by
    intro a
    rw [List.getLast?_append_of_ne_nil _ hne]
  have hcons : ∀ a : Bytes, (a ++ Ascii.slash :: q.bytes).getLast? = q.bytes.getLast? := by
    intro a
    simpa using hlast (a ++ [Ascii.slash])
  unfold join
  simp only [hq.not_absolute, hp, Bool.or_self, Bool.false_eq_true, ↓reduceIte]
  split
  · simp [endsInSlash, hlast]
  · simp [endsInSlash, hcons]

/-- Joining an inner path adds its names to the components. -/
theorem components_join {p q : Path} (hp : p.isEmpty = false) (hq : q.Inner) :
    (p.join q).components = p.components ++ q.names.map .name := by
  unfold components
  rw [written_join hp hq.not_absolute]
  cases hw : p.written with
  | nil => exact absurd hw (written_ne_nil hp)
  | cons c r => simp [hq.inside.filter_here, names]

/-! ## Paths spelled from components -/

/-- Components that a path can have, in an order that it can have them. -/
def Spellable (cs : List Component) : Prop :=
  (∀ n, .name n ∈ cs → Name.Proper n) ∧ .root ∉ cs.tail

theorem spellable_components (p : Path) : Spellable p.components := by
  have hsub : ∀ c ∈ p.components, c ∈ p.written := by
    intro c hc
    unfold components at hc
    split at hc
    · simp at hc
    · next c' r hw =>
      rcases List.mem_cons.mp hc with rfl | hc
      · simp [hw]
      · rw [hw]
        exact List.mem_cons_of_mem _ (List.mem_of_mem_filter hc)
  refine ⟨fun n hn => proper_of_mem_written (hsub _ hn), ?_⟩
  intro hroot
  -- `root` comes from the slash in front alone, so it is never behind the first place.
  have hseg : Component.root ∉ p.segments.filterMap componentOf := by
    intro h
    obtain ⟨s, _, hs⟩ := List.mem_filterMap.mp h
    exact componentOf_ne_root s hs
  unfold components at hroot
  split at hroot
  · simp at hroot
  · next c r hw =>
    have hr : Component.root ∈ r := List.mem_of_mem_filter hroot
    unfold written at hw
    split at hw
    · simp only [List.singleton_append, List.cons.injEq] at hw
      exact hseg (hw.2 ▸ hr)
    · rw [List.nil_append] at hw
      exact hseg (hw ▸ List.mem_cons_of_mem c hr)

theorem components_tail (p : Path) : p.components.tail = p.written.tail.filter (· != .here) := by
  unfold components
  split
  · next h => simp [h]
  · next c r h => simp [h]

theorem root_not_mem_tail_written (p : Path) : .root ∉ p.written.tail := by
  intro h
  apply (spellable_components p).2
  rw [components_tail]
  exact List.mem_filter.mpr ⟨h, by decide⟩

theorem componentOf_spelling {c : Component} (hroot : c ≠ .root)
    (hname : ∀ n, c = .name n → Name.Proper n) : componentOf c.spelling = some c := by
  cases c with
  | root => exact absurd rfl hroot
  | here => rfl
  | up => rfl
  | name n => exact componentOf_name (hname n rfl)

theorem no_slash_spelling {c : Component} (hname : ∀ n, c = .name n → Name.Proper n) :
    Ascii.slash ∉ c.spelling := by
  cases c with
  | root => simp [Component.spelling]
  | here => decide
  | up => decide
  | name n => exact (hname n rfl).no_slash

private theorem segments_spellings {cs : List Component} (hne : cs ≠ [])
    (hname : ∀ n, .name n ∈ cs → Name.Proper n) (hroot : .root ∉ cs) :
    (segmentsOf (joinSegments (cs.map Component.spelling))).filterMap componentOf = cs := by
  rw [segmentsOf_joinSegments (by simpa using hne)]
  · rw [List.filterMap_map]
    calc cs.filterMap (componentOf ∘ Component.spelling)
        = cs.filterMap some := by
          apply List.filterMap_congr
          intro c hc
          exact componentOf_spelling (fun h => hroot (h ▸ hc)) fun n h => hname n (h ▸ hc)
      _ = cs := List.filterMap_some
  · intro s hs
    obtain ⟨c, hc, rfl⟩ := List.mem_map.mp hs
    exact no_slash_spelling fun n h => hname n (h ▸ hc)

private theorem head_spellings {c : Component} (r : List Component)
    (hname : ∀ n, c = .name n → Name.Proper n) (hroot : c ≠ .root) :
    (joinSegments ((c :: r).map Component.spelling)).head? ≠ some Ascii.slash := by
  have hhead : ∀ rest : Bytes, (c.spelling ++ rest).head? ≠ some Ascii.slash := by
    intro rest h
    cases hs : c.spelling with
    | nil =>
      have := componentOf_spelling hroot hname
      simp [hs, componentOf] at this
    | cons b s =>
      rw [hs, List.cons_append, List.head?_cons, Option.some.injEq] at h
      exact no_slash_spelling hname (by simp [hs, h])
  cases r with
  | nil => simpa [joinSegments] using hhead []
  | cons c' r => exact hhead _

/-- A path spelled from components is made of them again. -/
theorem written_ofComponents {cs : List Component} (hne : cs ≠ []) (h : Spellable cs) :
    (ofComponents cs).written = cs := by
  cases cs with
  | nil => exact absurd rfl hne
  | cons c r =>
    have hname : ∀ n, .name n ∈ r → Name.Proper n := fun n hn => h.1 n (by simp [hn])
    by_cases hc : c = .root
    · subst hc
      by_cases hr : r = []
      · subst hr
        rfl
      · have hspell := segments_spellings hr hname h.2
        simp [ofComponents, written, isAbsolute, segments, segmentsOf, componentOf, hspell]
    · have hroot : Component.root ∉ c :: r := by
        simpa [List.mem_cons, Ne.symm hc] using h.2
      have hspell := segments_spellings (by simp) h.1 hroot
      have hhead := head_spellings r (fun n hn => h.1 n (by simp [hn])) hc
      have hof : ofComponents (c :: r) = ⟨joinSegments ((c :: r).map Component.spelling)⟩ := by
        cases c with
        | root => exact absurd rfl hc
        | _ => rfl
      rw [hof, written, isAbsolute, beq_eq_false_iff_ne.mpr hhead, segments, hspell]
      rfl

theorem isEmpty_ofComponents {cs : List Component} (hne : cs ≠ []) (hs : Spellable cs) :
    (ofComponents cs).isEmpty = false := by
  cases hemp : (ofComponents cs).isEmpty with
  | false => rfl
  | true =>
    have hw := written_ofComponents hne hs
    rw [isEmpty, List.isEmpty_iff] at hemp
    rw [written, isAbsolute, segments, hemp] at hw
    exact absurd hw.symm hne

theorem here_not_mem_tail_components (p : Path) : .here ∉ p.components.tail := by
  simp [components_tail]

/-- Components with no `.` behind the first place are those of the path that they
spell. -/
theorem components_ofComponents {cs : List Component} (hs : Spellable cs)
    (hhere : .here ∉ cs.tail) : (ofComponents cs).components = cs := by
  cases cs with
  | nil => rfl
  | cons c r =>
    have hr : r.filter (· != .here) = r := by
      apply List.filter_eq_self.mpr
      intro x hx
      rw [bne_iff_ne]
      rintro rfl
      exact hhere hx
    rw [components, written_ofComponents (by simp) hs]
    exact congrArg (c :: ·) hr

theorem Spellable.mono {cs ds : List Component} (h : Spellable ds) (hcs : cs <+: ds) :
    Spellable cs :=
  ⟨fun n hn => h.1 n (hcs.subset hn), fun hroot => h.2 (hcs.sublist.tail.subset hroot)⟩

/-- The beginnings of a longer list are the list before it and its beginnings. -/
theorem beginnings_append_singleton {α : Type} {l : List α} (hl : l ≠ []) (a : α) :
    beginnings (l ++ [a]) = l :: beginnings l := by
  induction l with
  | nil => exact absurd rfl hl
  | cons b r ih =>
    cases r with
    | nil => rfl
    | cons c r =>
      have ih := ih (by simp)
      rw [List.cons_append, List.cons_append, beginnings, ← List.cons_append, ih]
      rfl

end Path

end GuestSync
