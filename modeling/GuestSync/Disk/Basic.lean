/-
# GuestSync.Disk.Basic -- a disk as nodes at locations

A location is the list of names from the root directory down. A disk holds at
most one node at each location; the root directory is always there. The view of
a disk is `node?`, and every statement about a disk is made through it: writing
and removing change the view at one location and nowhere else, and `children`
depends on the view alone, in the order of the names' octets.

Modes, owners and times are not part of a node, because nothing here reads them.
-/
import GuestSync.Path

namespace GuestSync

/-- The names from the root directory down to a node. -/
abbrev Location := List Name

/-- What can stand at a location. The tag of a file is its extended attribute for
the Finder, if it has one. -/
inductive Node where
  | directory
  | file (content : Bytes) (tag : Option Bytes)
  | link (target : Path)
  | fifo
  deriving DecidableEq, Repr

/-- Why the system refuses an operation. -/
inductive OsError where
  | notPermitted
  | notFound
  | exists
  | notDirectory
  | isDirectory
  | tooManyLinks
  /-- The operation waits for the other end of a pipe. -/
  | wouldBlock
  deriving DecidableEq, Repr

/-- The system's text for an error, with its number. -/
def OsError.message : OsError → String
  | .notPermitted => "Operation not permitted (os error 1)"
  | .notFound => "No such file or directory (os error 2)"
  | .exists => "File exists (os error 17)"
  | .notDirectory => "Not a directory (os error 20)"
  | .isDirectory => "Is a directory (os error 21)"
  | .tooManyLinks => "Too many levels of symbolic links (os error 40)"
  | .wouldBlock => "Resource temporarily unavailable (os error 11)"

/-- Nodes at locations, and the location from which relative paths start. -/
structure Disk where
  start : Location
  nodes : List (Location × Node)
  deriving DecidableEq, Repr

namespace Disk

/-! ## The view and its two changes -/

/-- The node at a location. -/
def node? (d : Disk) (l : Location) : Option Node :=
  if l = [] then some .directory else d.nodes.lookup l

/-- The disk with a node put at a location, in place of any that was there. -/
def put (d : Disk) (l : Location) (n : Node) : Disk :=
  { d with nodes := (l, n) :: d.nodes.filter (·.1 != l) }

/-- The disk without the node at a location. -/
def erase (d : Disk) (l : Location) : Disk :=
  { d with nodes := d.nodes.filter (·.1 != l) }

theorem node?_root (d : Disk) : d.node? [] = some .directory := rfl

private theorem lookup_filter_ne (ns : List (Location × Node)) {l m : Location} (h : m ≠ l) :
    (ns.filter (·.1 != l)).lookup m = ns.lookup m := by
  induction ns with
  | nil => rfl
  | cons e es ih =>
    obtain ⟨k, n⟩ := e
    by_cases hk : k = l
    · have hml : (m == l) = false := by simpa using h
      simp [hk, List.lookup_cons, hml, ih]
    · simp [hk, List.lookup_cons, ih]

private theorem lookup_filter_self (ns : List (Location × Node)) (l : Location) :
    (ns.filter (·.1 != l)).lookup l = none := by
  induction ns with
  | nil => rfl
  | cons e es ih =>
    obtain ⟨k, n⟩ := e
    by_cases hk : k = l
    · simp [hk, ih]
    · have hk' : (l == k) = false := by simpa using Ne.symm hk
      simp [hk, List.lookup_cons, hk', ih]

/-- Putting a node changes the view at its location alone. -/
theorem node?_put (d : Disk) (l : Location) (n : Node) (m : Location) :
    (d.put l n).node? m = if m = [] then some .directory else if m = l then some n else d.node? m := by
  by_cases hm : m = []
  · simp [node?, hm]
  · by_cases h : m = l
    · simp [node?, put, ← h, hm]
    · simp [node?, put, hm, h, lookup_filter_ne _ h, List.lookup_cons,
        show (m == l) = false by simpa using h]

/-- Erasing a node changes the view at its location alone. -/
theorem node?_erase (d : Disk) (l m : Location) :
    (d.erase l).node? m = if m = [] then some .directory else if m = l then none else d.node? m := by
  by_cases hm : m = []
  · simp [node?, hm]
  · by_cases h : m = l
    · simp [node?, erase, ← h, hm, lookup_filter_self]
    · simp [node?, erase, hm, h, lookup_filter_ne _ h]

/-! ## The names in a directory -/

/-- A name put into a strictly increasing list of names; one that is there
already is not repeated. -/
def insertName (n : Name) : List Name → List Name
  | [] => [n]
  | m :: r => if n = m then m :: r else if n < m then n :: m :: r else m :: insertName n r

/-- The name that a location adds to the directory `l`, if it lies directly in
it. -/
def nameIn? (l k : Location) : Option Name := if k.dropLast = l then k.getLast? else none

/-- The names of the nodes directly in a directory, in the order of their
octets. -/
def children (d : Disk) (l : Location) : List Name :=
  (d.nodes.filterMap fun e => nameIn? l e.1).foldr insertName []

theorem mem_insertName {n m : Name} {ns : List Name} :
    m ∈ insertName n ns ↔ m = n ∨ m ∈ ns := by
  induction ns with
  | nil => simp [insertName]
  | cons k ks ih =>
    unfold insertName
    split
    · next h => subst h; simp
    · split
      · simp
      · simp [ih, or_left_comm]

theorem nameIn?_eq_some {l k : Location} {n : Name} : nameIn? l k = some n ↔ k = l ++ [n] := by
  unfold nameIn?
  constructor
  · intro h
    split at h
    · next hl =>
      obtain ⟨r, rfl⟩ := List.getLast?_eq_some_iff.mp h
      simp [← hl]
    · simp at h
  · rintro rfl
    simp

private theorem mem_foldr_insertName {n : Name} {ns : List Name} :
    n ∈ ns.foldr insertName [] ↔ n ∈ ns := by
  induction ns with
  | nil => simp
  | cons m ms ih => simp [mem_insertName, ih]

/-- The names in a directory are those at which the view has a node. -/
theorem mem_children {d : Disk} {l : Location} {n : Name} :
    n ∈ d.children l ↔ (d.node? (l ++ [n])).isSome := by
  have hne : l ++ [n] ≠ [] := by simp
  rw [children, mem_foldr_insertName, List.mem_filterMap, node?, if_neg hne,
    Option.isSome_iff_ne_none, ne_eq, List.lookup_eq_none_iff]
  simp only [nameIn?_eq_some]
  constructor
  · rintro ⟨e, he, hk⟩ h
    simpa [hk] using h e he
  · intro h
    refine Classical.byContradiction fun hno => h fun e he => ?_
    have hk : e.1 ≠ l ++ [n] := fun hk => hno ⟨e, he, hk⟩
    simpa using Ne.symm hk

/-! ## Disks as they come -/

/-- A disk with one empty directory to start from. -/
def empty (start : Location) : Disk :=
  { start, nodes := (Path.beginnings start ++ [start]).map (·, .directory) }

/-- An empty disk has the directories on the way to its start and nothing else. -/
theorem node?_empty {start l : Location} :
    (empty start).node? l = if l.isPrefixOf start then some .directory else none := by
  unfold node?
  split
  · next h => subst h; simp
  · next h =>
    have hmem : l.isPrefixOf start ↔ l ∈ Path.beginnings start ++ [start] := by
      rw [List.isPrefixOf_iff_prefix, List.mem_append, Path.mem_beginnings, List.mem_singleton]
      constructor
      · intro hp
        by_cases hs : l = start
        · exact .inr hs
        · exact .inl ⟨h, hs, hp⟩
      · rintro (h | rfl)
        · exact h.2.2
        · exact List.prefix_rfl
    simp only [hmem, empty]
    generalize Path.beginnings start ++ [start] = ls
    induction ls with
    | nil => rfl
    | cons k ks ih =>
      by_cases hk : l = k
      · simp [hk]
      · simp [List.lookup_cons, hk, beq_eq_false_iff_ne.mpr hk, ih]

/-- Whether every node other than the root lies in a directory. -/
def WellFormed (d : Disk) : Prop :=
  ∀ l n, d.node? (l ++ [n]) ≠ none → d.node? l = some .directory

theorem wellFormed_empty (start : Location) : (empty start).WellFormed := by
  intro l n h
  rw [node?_empty] at h ⊢
  split at h
  · next hp =>
    have hl : l.isPrefixOf start :=
      List.isPrefixOf_iff_prefix.mpr
        ((List.prefix_append l [n]).trans (List.isPrefixOf_iff_prefix.mp hp))
    rw [if_pos hl]
  · exact absurd rfl h

end Disk

end GuestSync
