/-
# GuestSync.Proofs.DirectoryListing -- what a listing says

The names in a directory come in strictly increasing order, so no name comes
twice and the view alone decides the list. On a plain disk the listing of a
subdirectory is settled by the one node that its names lead to, and every entry
of it by one node below that. A regular file is listed as empty where nothing
stands behind its name.
-/
import GuestSync.Sync.Entry
import GuestSync.Proofs.DirectoryChain

namespace GuestSync.Disk

/-! ## The order of the names -/

private theorem pairwise_insertName {n : Name} {ns : List Name} (h : ns.Pairwise (· < ·)) :
    (insertName n ns).Pairwise (· < ·) := by
  induction ns with
  | nil => simp [insertName]
  | cons m r ih =>
    obtain ⟨hhead, htail⟩ := List.pairwise_cons.mp h
    unfold insertName
    split
    · exact h
    · next hne =>
      split
      · next hlt =>
        refine List.pairwise_cons.mpr ⟨?_, h⟩
        intro k hk
        rcases List.mem_cons.mp hk with rfl | hk
        · exact hlt
        · exact List.lt_trans hlt (hhead k hk)
      · next hge =>
        refine List.pairwise_cons.mpr ⟨?_, ih htail⟩
        intro k hk
        rcases mem_insertName.mp hk with rfl | hk
        · exact Std.lt_of_le_of_ne (List.not_lt.mp hge) (Ne.symm hne)
        · exact hhead k hk

theorem pairwise_children (d : Disk) (l : Location) : (d.children l).Pairwise (· < ·) := by
  unfold children
  induction d.nodes.filterMap fun e => nameIn? l e.1 with
  | nil => exact .nil
  | cons n ns ih => exact pairwise_insertName ih

theorem nodup_children (d : Disk) (l : Location) : (d.children l).Nodup :=
  (pairwise_children d l).imp fun {a b} (hlt : a < b) (heq : a = b) =>
    List.lt_irrefl b (heq ▸ hlt)

theorem mem_children_iff {d : Disk} {l : Location} {n : Name} :
    n ∈ d.children l ↔ d.node? (l ++ [n]) ≠ none := by
  rw [mem_children, Option.isSome_iff_ne_none]

theorem not_mem_children_iff {d : Disk} {l : Location} {n : Name} :
    n ∉ d.children l ↔ d.node? (l ++ [n]) = none := by
  rw [mem_children_iff, not_not]

theorem Plain.directory_of_mem_children {d : Disk} (hd : d.Plain) {l : Location} {n : Name}
    (hn : n ∈ d.children l) : d.node? l = some .directory :=
  hd.wellFormed l n (mem_children_iff.mp hn)

theorem Plain.proper_of_mem_children {d : Disk} (hd : d.Plain) {l : Location} {n : Name}
    (hn : n ∈ d.children l) : Name.Proper n :=
  hd.proper l n (mem_children_iff.mp hn)

/-- The names in a directory depend on the view of its entries alone. -/
theorem children_congr {d e : Disk} {l k : Location}
    (h : ∀ n, (d.node? (l ++ [n])).isSome = (e.node? (k ++ [n])).isSome) :
    d.children l = e.children k := by
  apply (pairwise_children d l).eq_of_mem_iff (pairwise_children e k)
  intro n
  rw [mem_children, mem_children, h]

/-! ## Listing by what a path leads to -/

section Status

variable {d : Disk} {p : Path}

theorem list_of_status_error {e : OsError} (h : d.status p = .error e) : d.list p = .error e := by
  unfold status at h
  unfold list
  cases hloc : d.locate .followed p.steps with
  | error e' => simpa [hloc, bind, Except.bind] using h
  | ok l =>
    simp only [hloc, bind, Except.bind] at h ⊢
    cases hl : d.node? l with
    | none => simpa [hl] using h
    | some x => simp [hl] at h

/-- What is there and is no directory is listed as empty. -/
theorem list_of_status_ok {x : Node} (h : d.status p = .ok x) (hx : x ≠ .directory) :
    d.list p = .ok [] := by
  unfold status at h
  unfold list
  cases hloc : d.locate .followed p.steps with
  | error e' => simp [hloc, bind, Except.bind] at h
  | ok l =>
    simp only [hloc, bind, Except.bind] at h ⊢
    cases hl : d.node? l with
    | none => simp [hl] at h
    | some y =>
      obtain rfl : y = x := by simpa [hl] using h
      cases y with
      | directory => exact absurd rfl hx
      | _ => rfl

end Status

/-! ## Listing a subdirectory of a root -/

section Subdirectory

variable {d : Disk} {p q : Path} {l : Location}

/-- Whether the subdirectory can be listed: a directory is there, or a regular
file with nothing behind its name. -/
def Listable (d : Disk) (l : Location) (q : Path) : Prop :=
  d.node? (l ++ q.names) = some .directory ∨
    (∃ c t, d.node? (l ++ q.names) = some (.file c t)) ∧ q.endsInHere = false ∧
      q.endsInSlash = false

/-- A walk by inner components ends at a file that they lead to, if nothing
stands behind its name. -/
private theorem stride_to_file (hd : d.Plain) {cs : List Component} (hcs : Component.Inside cs)
    (hlast : cs.getLast? ≠ some .here) (hl : d.node? l = some .directory) {c : Bytes}
    {t : Option Bytes} (hfile : d.node? (l ++ Component.names cs) = some (.file c t)) :
    d.stride .followed l (cs.map Step.ofComponent) = .arrived (l ++ Component.names cs) := by
  induction hcs generalizing l with
  | nil => simp [hl] at hfile
  | @here r hr ih =>
    have hr0 : r ≠ [] := by
      rintro rfl
      simp [hl] at hfile
    rw [List.getLast?_cons_of_ne_nil hr0] at hlast
    exact ih hlast hl hfile
  | @name n r hr ih =>
    rw [Component.names_name, List.append_cons] at hfile ⊢
    rw [List.map_cons, Step.ofComponent, stride, if_neg (by simp)]
    by_cases hr0 : r = []
    · subst hr0
      rw [Component.names_nil, List.append_nil] at hfile ⊢
      rw [hfile]
      rfl
    · rw [List.getLast?_cons_of_ne_nil hr0] at hlast
      have hnr : Component.names r ≠ [] := by
        intro hnil
        exact hlast (hr.getLast?_of_names_nil hr0 hnil)
      -- More names follow, so this one is on the way to the file.
      have hn : d.node? (l ++ [n]) = some .directory :=
        hd.directory_of_prefix (List.prefix_append _ _) (hfile ▸ Option.some_ne_none _)
          (by simpa using hnr)
      rw [hn]
      exact ih hlast hn hfile

/-- A walk by inner components is stopped if they lead to nothing, or to a file
behind which something stands. -/
private theorem stride_stopped (hd : d.Plain) {cs : List Component} (hcs : Component.Inside cs)
    (tail : List Step) (hl : d.node? l = some .directory)
    (hnot : d.node? (l ++ Component.names cs) ≠ some .directory)
    (hstop : d.node? (l ++ Component.names cs) = none ∨ cs.getLast? = some .here ∨ tail ≠ []) :
    ∃ e, d.stride .followed l (cs.map Step.ofComponent ++ tail) = .blocked e := by
  induction hcs generalizing l with
  | nil => simp [hl] at hnot
  | @here r hr ih =>
    have hr0 : r ≠ [] := by
      rintro rfl
      simp [hl] at hnot
    rw [List.getLast?_cons_of_ne_nil hr0] at hstop
    exact ih hl hnot hstop
  | @name n r hr ih =>
    rw [Component.names_name, List.append_cons] at hnot hstop
    rw [List.map_cons, Step.ofComponent, List.cons_append, stride, if_neg (by simp)]
    rcases hd.node_cases (l ++ [n]) with hn | hn | ⟨c, t, hn⟩
    · rw [hn]
      exact ⟨.notFound, by simp⟩
    · have hr0 : r ≠ [] := by
        rintro rfl
        simp [hn] at hnot
      rw [List.getLast?_cons_of_ne_nil hr0] at hstop
      rw [hn]
      exact ih hn hnot hstop
    · -- A file stops the walk if anything is still to come, and something is.
      have hrest : r.map Step.ofComponent ++ tail ≠ [] := by
        intro hnil
        obtain ⟨hr0, rfl⟩ := List.append_eq_nil_iff.mp hnil
        rw [List.map_eq_nil_iff] at hr0
        subst hr0
        simp [hn] at hstop
      rw [hn]
      dsimp only
      rw [if_neg hrest]
      exact ⟨_, rfl⟩

/-- The steps of a subdirectory's path go to the root and from there by the
components of the subdirectory. -/
private theorem stride_join (h : d.Opens p l) (hq : q.Inner) :
    d.stride .followed d.start (p.join q).steps =
      d.stride .followed l
        (q.written.map Step.ofComponent ++ if q.endsInSlash then [.slash] else []) := by
  have hne : q.bareSteps ≠ [] := by
    simpa [Path.bareSteps] using Path.written_ne_nil hq.nonempty
  rw [Path.steps, Path.bareSteps_join h.nonempty hq, Path.endsInSlash_join h.nonempty hq,
    List.append_assoc, stride_append h.clear (by simp [hne]) (by simp), h.goal]
  rfl

theorem list_join_directory (hd : d.Plain) (h : d.Opens p l) (hq : q.Inner)
    (hdir : d.node? (l ++ q.names) = some .directory) :
    d.list (p.join q) = .ok (d.children (l ++ q.names)) :=
  list_of_directoryAt (h.join hd hq hdir).directoryAt

theorem status_join_file (hd : d.Plain) (h : d.Opens p l) (hq : q.Inner) {c : Bytes}
    {t : Option Bytes} (hfile : d.node? (l ++ q.names) = some (.file c t))
    (hhere : q.endsInHere = false) (hslash : q.endsInSlash = false) :
    d.status (p.join q) = .ok (.file c t) := by
  have hlast : q.written.getLast? ≠ some .here := by
    rwa [Path.endsInHere, beq_eq_false_iff_ne] at hhere
  have hs := stride_join h hq
  rw [hslash, if_neg (by simp), List.append_nil,
    stride_to_file hd hq.inside hlast h.directory hfile] at hs
  rw [status, locate_of_arrived (Path.steps_ne_nil (Path.isEmpty_join h.nonempty hq)) hs]
  change d.node? (l ++ Component.names q.written) = _ at hfile
  simp [bind, Except.bind, hfile]

theorem Plain.children_of_not_directory (hd : d.Plain) {m : Location}
    (hm : d.node? m ≠ some .directory) : d.children m = [] := by
  apply List.eq_nil_iff_forall_not_mem.mpr
  intro n hn
  exact hm (hd.directory_of_mem_children hn)

/-- What can be listed gives the names below it. -/
theorem list_join (hd : d.Plain) (h : d.Opens p l) (hq : q.Inner) (hlist : d.Listable l q) :
    d.list (p.join q) = .ok (d.children (l ++ q.names)) := by
  rcases hlist with hdir | ⟨⟨c, t, hfile⟩, hhere, hslash⟩
  · exact list_join_directory hd h hq hdir
  · rw [hd.children_of_not_directory (by simp [hfile])]
    exact list_of_status_ok (status_join_file hd h hq hfile hhere hslash) (by simp)

/-- What cannot be listed is not there for the system. -/
theorem status_join_error (hd : d.Plain) (h : d.Opens p l) (hq : q.Inner)
    (hno : ¬ d.Listable l q) : ∃ e, d.status (p.join q) = .error e := by
  have hnot : d.node? (l ++ q.names) ≠ some .directory := by
    intro hdir
    exact hno (.inl hdir)
  have hstop : d.node? (l ++ q.names) = none ∨ q.written.getLast? = some .here ∨
      (if q.endsInSlash then [Step.slash] else []) ≠ [] := by
    by_contra hall
    push Not at hall
    obtain ⟨hsome, hhere, hslash⟩ := hall
    refine hno (.inr ⟨((hd.node_cases _).resolve_left hsome).resolve_left hnot, ?_, ?_⟩)
    · rwa [Path.endsInHere, beq_eq_false_iff_ne]
    · by_contra hs
      simp [hs] at hslash
  obtain ⟨e, hs⟩ := stride_stopped hd hq.inside _ h.directory hnot hstop
  refine ⟨e, ?_⟩
  rw [status, locate_of_blocked (Path.steps_ne_nil (Path.isEmpty_join h.nonempty hq))
    ((stride_join h hq).trans hs)]
  rfl

theorem status_join_error_iff (hd : d.Plain) (h : d.Opens p l) (hq : q.Inner) :
    (∃ e, d.status (p.join q) = .error e) ↔ ¬ d.Listable l q := by
  constructor
  · rintro ⟨e, he⟩ hlist
    have hnames := list_join hd h hq hlist
    rw [list_of_status_error he] at hnames
    simp at hnames
  · exact status_join_error hd h hq

theorem list_join_error (hd : d.Plain) (h : d.Opens p l) (hq : q.Inner)
    (hno : ¬ d.Listable l q) : ∃ e, d.list (p.join q) = .error e := by
  obtain ⟨e, he⟩ := status_join_error hd h hq hno
  exact ⟨e, list_of_status_error he⟩

end Subdirectory

/-! ## Entries as they are listed -/

section Entry

variable {d : Disk} {p : Path} {l : Location} {n : Name}

theorem entry_kind_file (hd : d.Plain) (h : d.Opens p l) (hn : Name.Proper n) :
    (d.entry p n).kind = .file ↔ ∃ c t, d.node? (l ++ [n]) = some (.file c t) := by
  show EntryKind.ofStatus (d.status (p.child n)) = .file ↔ _
  rw [status_child hd h hn]
  rcases hd.node_cases (l ++ [n]) with hx | hx | ⟨c, t, hx⟩ <;> rw [hx] <;>
    simp [EntryKind.ofStatus]

theorem entry_kind_broken (hd : d.Plain) (h : d.Opens p l) (hn : Name.Proper n) :
    (d.entry p n).kind = .broken ↔ d.node? (l ++ [n]) = none := by
  show EntryKind.ofStatus (d.status (p.child n)) = .broken ↔ _
  rw [status_child hd h hn]
  rcases hd.node_cases (l ++ [n]) with hx | hx | ⟨c, t, hx⟩ <;> rw [hx] <;>
    simp [EntryKind.ofStatus]

end Entry

/-! ## What two disks show alike -/

section Alike

variable {d e : Disk} {p q : Path} {l : Location} {n : Name}

theorem read_child_congr (hd : d.Plain) (he : e.Plain) (h : d.Opens p l) (h' : e.Opens p l)
    (hn : Name.Proper n) (hsame : e.node? (l ++ [n]) = d.node? (l ++ [n])) :
    d.read (p.child n) = e.read (p.child n) := by
  rw [read_child hd h hn, read_child he h' hn, hsame]

theorem entry_congr (hd : d.Plain) (he : e.Plain) (h : d.Opens p l) (h' : e.Opens p l)
    (hn : Name.Proper n) (hsame : e.node? (l ++ [n]) = d.node? (l ++ [n])) :
    d.entry p n = e.entry p n := by
  unfold entry
  rw [status_child hd h hn, status_child he h' hn, hsame]

/-- A listing below a place that two disks have alike. -/
theorem list_congr (hd : d.Plain) (he : e.Plain) (h : d.Opens p l) (h' : e.Opens p l)
    (hq : q.Inner) (hsame : ∀ x, e.node? (l ++ x) = d.node? (l ++ x)) {ns : List Name}
    (hlist : e.list (p.join q) = .ok ns) :
    ns = e.children (l ++ q.names) ∧ d.list (p.join q) = .ok ns ∧
      ns.map (d.entry (p.join q)) = ns.map (e.entry (p.join q)) := by
  have hlistable : e.Listable l q := by
    by_contra hno
    obtain ⟨err, herr⟩ := list_join_error he h' hq hno
    rw [herr] at hlist
    simp at hlist
  have hlistable' : d.Listable l q := by
    unfold Listable at hlistable ⊢
    rwa [hsame] at hlistable
  rw [list_join he h' hq hlistable, Except.ok.injEq] at hlist
  subst hlist
  have hchildren : d.children (l ++ q.names) = e.children (l ++ q.names) := by
    apply children_congr
    intro n
    rw [List.append_assoc, hsame]
  refine ⟨rfl, by rw [list_join hd h hq hlistable', hchildren], ?_⟩
  apply List.map_congr_left
  intro n hn
  have hdir : e.node? (l ++ q.names) = some .directory :=
    he.directory_of_mem_children hn
  apply entry_congr hd he (h.join hd hq (by rwa [← hsame])) (h'.join he hq hdir)
    (he.proper_of_mem_children hn)
  rw [List.append_assoc, hsame]

end Alike

end GuestSync.Disk
