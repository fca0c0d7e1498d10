/-
# GuestSync.Proofs.ProperNames -- names on a disk

A name of an entry has no slash and is neither empty nor `.` nor `..`. A disk whose
locations are made of such names keeps that property whatever is done to it: a walk only
ever goes on by names that are written in a path, be it the path of the operation or the
target of a link, and those can all be names of entries.
-/
import GuestSync.Proofs.EntryPlaces
import GuestSync.Proofs.Journals

namespace GuestSync

namespace Disk

/-- Every name on the way to a node, or to the start, can be that of an entry. -/
structure Named (d : Disk) : Prop where
  start : ∀ n ∈ d.start, Name.Proper n
  nodes : ∀ l, d.node? l ≠ none → ∀ n ∈ l, Name.Proper n

variable {d e : Disk} {p : Path} {l m : Location}

/-- The nodes of a disk can be tested one by one. -/
theorem named_of_nodes (hstart : ∀ n ∈ d.start, Name.Proper n)
    (h : ∀ e ∈ d.nodes, ∀ n ∈ e.1, Name.Proper n) : d.Named := by
  refine ⟨hstart, ?_⟩
  intro l hl n hn
  have hroot : l ≠ [] := List.ne_nil_of_mem hn
  obtain ⟨x, hx⟩ := Option.ne_none_iff_exists'.mp hl
  rw [node?, if_neg hroot] at hx
  obtain ⟨before, after, hnodes, -⟩ := List.lookup_eq_some_iff.mp hx
  exact h (l, x) (by simp [hnodes]) n hn

/-- The names in a directory are such names. -/
theorem Named.proper (h : d.Named) (l : Location) (n : Name) (hn : d.node? (l ++ [n]) ≠ none) :
    Name.Proper n :=
  h.nodes _ hn n (by simp)

/-! ## Walks -/

/-- A walk ends at names that are on the way to where it begins or that are written in a
path. -/
private theorem stride_named (last : LastName) (hl : ∀ n ∈ l, Name.Proper n) {xs : List Step}
    (hxs : ∀ n, .name n ∈ xs → Name.Proper n) :
    match d.stride last l xs with
    | .arrived k => ∀ n ∈ k, Name.Proper n
    | .blocked _ => True
    | .link base _ rest => (∀ n ∈ base, Name.Proper n) ∧ ∀ n, .name n ∈ rest → Name.Proper n := by
  induction xs generalizing l with
  | nil => exact hl
  | cons x r ih =>
    have hr : ∀ n, .name n ∈ r → Name.Proper n := fun n hn => hxs n (List.mem_cons_of_mem x hn)
    cases x with
    | root => exact ih (by simp) hr
    | here => exact ih hl hr
    | slash => exact ih hl hr
    | up => exact ih (fun n hn => hl n (List.mem_of_mem_dropLast hn)) hr
    | name n =>
      have hn : ∀ k ∈ l ++ [n], Name.Proper k := by
        intro k hk
        rcases List.mem_append.mp hk with hk | hk
        · exact hl k hk
        · exact hxs k (by simp [List.mem_singleton.mp hk])
      rw [stride]
      by_cases hslash : last = .created ∧ r = [.slash]
      · rw [if_pos hslash]
        trivial
      · rw [if_neg hslash]
        cases hx : d.node? (l ++ [n]) with
        | none =>
          by_cases hlast : r = [] ∧ last ≠ .followed
          · rw [if_pos hlast]
            exact hn
          · rw [if_neg hlast]
            trivial
        | some x =>
          cases x with
          | directory => exact ih hn hr
          | link target =>
            by_cases hlast : r = [] ∧ last = .taken
            · simp only [if_pos hlast]
              exact hn
            · simp only [if_neg hlast]
              exact ⟨hl, hr⟩
          | _ =>
            by_cases hlast : r = []
            · simp only [if_pos hlast]
              exact hn
            · simp only [if_neg hlast]

private theorem walk_named {links : Nat} {last : LastName} {xs : List Step}
    (hl : ∀ n ∈ l, Name.Proper n) (hxs : ∀ n, .name n ∈ xs → Name.Proper n)
    (h : d.walk last links l xs = .ok m) : ∀ n ∈ m, Name.Proper n := by
  fun_induction d.walk last links l xs with
  | case1 links l xs k hs =>
    obtain rfl : k = m := by simpa using h
    have hstride := stride_named (d := d) last hl hxs
    rwa [hs] at hstride
  | case2 => simp at h
  | case3 => simp at h
  | case4 l xs base target rest links hs ih =>
    have hstride := stride_named (d := d) last hl hxs
    rw [hs] at hstride
    refine ih hstride.1 ?_ h
    intro n hn
    rcases List.mem_append.mp hn with hn | hn
    · exact Path.proper_of_mem_steps hn
    · exact hstride.2 n hn

theorem Named.locate (h : d.Named) {last : LastName} {xs : List Step}
    (hxs : ∀ n, .name n ∈ xs → Name.Proper n) (hloc : d.locate last xs = .ok m) :
    ∀ n ∈ m, Name.Proper n := by
  unfold Disk.locate at hloc
  split at hloc
  · simp at hloc
  · exact walk_named h.start hxs hloc

/-! ## Operations -/

/-- A change at a location of such names. -/
theorem Named.of_change (h : d.Named) (hl : ∀ n ∈ l, Name.Proper n) (hstart : e.start = d.start)
    (hother : ∀ k, k ≠ l → e.node? k = d.node? k) : e.Named := by
  refine ⟨hstart ▸ h.start, ?_⟩
  intro k hk
  by_cases hkl : k = l
  · exact hkl ▸ hl
  · exact h.nodes k (hother k hkl ▸ hk)

theorem Named.write (h : d.Named) {content : Bytes} (hwrite : d.write p content = .ok e) :
    e.Named := by
  obtain ⟨l, t, hloc, -, -, hstart, hother⟩ := filled_of_write hwrite
  exact h.of_change (h.locate (fun _ => Path.proper_of_mem_steps) hloc) hstart hother

theorem Named.remove (h : d.Named) (hremove : d.remove p = .ok e) : e.Named := by
  obtain ⟨l, hloc, -, -, hstart, hother⟩ := cut_of_remove hremove
  exact h.of_change (h.locate (fun _ => Path.proper_of_mem_bareSteps) hloc) hstart hother

theorem Named.setTag (h : d.Named) {tag : Bytes} (htag : d.setTag p tag = .ok e) : e.Named := by
  rcases retagged_of_setTag htag with rfl | ⟨l, c, t, t', hloc, -, -, hstart, hother⟩
  · exact h
  · exact h.of_change (h.locate (fun _ => Path.proper_of_mem_steps) hloc) hstart hother

theorem Named.makeDirectories (h : d.Named) (p : Path) : (d.makeDirectories p).1.Named := by
  refine makeDirectories_induction ?_ h p
  intro d e p h hmake
  obtain ⟨l, hloc, hnone, rfl⟩ := make_of_ok hmake
  have hroot : l ≠ [] := ne_root (d := d) (by simp [hnone])
  exact h.of_change (h.locate (fun _ => Path.proper_of_mem_bareSteps) hloc) rfl
    fun k hk => node?_put_of_ne hroot hk

/-- **Names stay names** in every event of a run. -/
theorem Named.act (h : d.Named) (tagger : Tagger) (ev : Event) : (ev.act tagger d).Named := by
  have hafter : ∀ answer : Except OsError Disk, (∀ e, answer = .ok e → e.Named) →
      (d.after answer).Named := by
    intro answer hall
    cases answer with
    | ok e => exact hall e rfl
    | error err => exact h
  cases ev with
  | report dryRun progress => exact h
  | announce path => exact h
  | makeDirectories path => exact h.makeDirectories path
  | write path content => exact hafter _ fun e he => h.write he
  | delete path => exact hafter _ fun e he => h.remove he
  | tag call accepted =>
    cases tagger with
    | listener refusal => exact h
    | disk =>
      cases accepted with
      | false => exact h
      | true => exact hafter _ fun e he => h.setTag he

end Disk

end GuestSync
