/-
# GuestSync.Path -- paths as they are written and as they compare

A path is an octet string and keeps the spelling it was given: messages show it
as it is held. What it names is read off its components. Empty segments and `.`
segments between slashes are no components, except that a `.` in front of a
relative path is one; `..` is kept. Two paths compare by their components, so
`a//b/.` and `a/b` are the same path while `./a` and `a` are not.
-/
import GuestSync.Text.Utf8

namespace GuestSync

/-- The name of a directory entry: octets without a slash. -/
abbrev Name := Bytes

/-- A path, as written. -/
structure Path where
  bytes : Bytes
  deriving DecidableEq, Repr

/-- What a path names, step by step. -/
inductive Component where
  /-- The root directory, in front of an absolute path. -/
  | root
  /-- The directory itself, a `.` segment. -/
  | here
  /-- The directory above, a `..` segment. -/
  | up
  /-- An entry of the directory. -/
  | name (n : Name)
  deriving DecidableEq, Repr

/-- The octets of a component. -/
def Component.spelling : Component → Bytes
  | .root => []
  | .here => [Ascii.dot]
  | .up => [Ascii.dot, Ascii.dot]
  | .name n => n

namespace Path

/-! ## Spelling -/

/-- The path that a string spells. -/
def ofString (s : String) : Path := ⟨Utf8.ofString s⟩

/-- The path as messages show it. -/
def display (p : Path) : String := Utf8.lossy p.bytes

/-- The path of no octets, which names nothing. -/
def isEmpty (p : Path) : Bool := p.bytes.isEmpty

/-- Whether the path starts at the root directory. -/
def isAbsolute (p : Path) : Bool := p.bytes.head? == some Ascii.slash

/-- Whether a slash ends the path. -/
def endsInSlash (p : Path) : Bool := p.bytes.getLast? == some Ascii.slash

/-- The octets between the slashes, empty ones included. -/
def segmentsOf : Bytes → List Bytes
  | [] => [[]]
  | b :: r =>
    if b = Ascii.slash then [] :: segmentsOf r
    else
      match segmentsOf r with
      | [] => [[b]]
      | s :: ss => (b :: s) :: ss

/-- The segments of the path. -/
def segments (p : Path) : List Bytes := segmentsOf p.bytes

/-- Octet strings with a slash between every two. -/
def joinSegments : List Bytes → Bytes
  | [] => []
  | [s] => s
  | s :: r => s ++ Ascii.slash :: joinSegments r

/-! ## Components -/

/-- The component of a segment, `none` for an empty segment. -/
def componentOf (s : Bytes) : Option Component :=
  if s = [] then none
  else if s = [Ascii.dot] then some .here
  else if s = [Ascii.dot, Ascii.dot] then some .up
  else some (.name s)

/-- Whether a segment is `.` or empty, and so no component inside a path. -/
def isIdle (s : Bytes) : Bool := s == [] || s == [Ascii.dot]

/-- Every component that is written, `.` segments anywhere included. -/
def written (p : Path) : List Component :=
  (if p.isAbsolute then [.root] else []) ++ p.segments.filterMap componentOf

/-- The components by which paths compare. -/
def components (p : Path) : List Component :=
  match p.written with
  | [] => []
  | c :: r => c :: r.filter (· != .here)

/-- The path spelled with one slash between its components. -/
def ofComponents : List Component → Path
  | [] => ⟨[]⟩
  | .root :: r => ⟨Ascii.slash :: joinSegments (r.map Component.spelling)⟩
  | cs => ⟨joinSegments (cs.map Component.spelling)⟩

/-- Whether two paths have the same components. -/
def same (p q : Path) : Bool := p.components == q.components

/-- The last component, if it is a name. -/
def fileName? (p : Path) : Option Name :=
  match p.components.getLast? with
  | some (.name n) => some n
  | _ => none

/-! ## Putting paths together -/

/-- The second path taken inside the first: an absolute one stands alone, any
other follows a slash. Nothing of either spelling is changed. -/
def join (p q : Path) : Path :=
  if q.isAbsolute || p.isEmpty then q
  else if p.endsInSlash then ⟨p.bytes ++ q.bytes⟩
  else ⟨p.bytes ++ Ascii.slash :: q.bytes⟩

/-- An entry of a directory. -/
def child (p : Path) (n : Name) : Path := p.join ⟨n⟩

/-- What follows a first component `n`, without the idle segments at its two
ends. `none` if the path does not start with that component. -/
def after? (n : Name) (p : Path) : Option Path :=
  if p.components.head? = some (.name n) then
    let inner := (p.segments.drop 1).dropWhile isIdle
    some ⟨joinSegments (inner.reverse.dropWhile isIdle).reverse⟩
  else none

/-- The nonempty beginnings of a list that are not the whole list, longest
first. -/
def beginnings {α : Type} : List α → List (List α)
  | [] => []
  | [_] => []
  | a :: b :: r => (beginnings (b :: r)).map (a :: ·) ++ [[a]]

theorem mem_beginnings {α : Type} {m l : List α} :
    m ∈ beginnings l ↔ m ≠ [] ∧ m ≠ l ∧ m <+: l := by
  induction l generalizing m with
  | nil => simp [beginnings]
  | cons a r ih =>
    cases r with
    | nil =>
      cases m with
      | nil => simp [beginnings]
      | cons b t => simp [beginnings, List.cons_prefix_cons]
    | cons b r =>
      cases m with
      | nil => simp [beginnings]
      | cons c t =>
        simp only [beginnings, List.mem_append, List.mem_map, List.mem_singleton, List.cons.injEq,
          ne_eq, List.cons_prefix_cons, reduceCtorEq, not_false_eq_true, true_and]
        constructor
        · rintro (⟨u, hu, rfl, rfl⟩ | ⟨rfl, rfl⟩)
          · have hproper := ih.mp hu
            exact ⟨fun h => hproper.2.1 h.2, rfl, hproper.2.2⟩
          · simp
        · rintro ⟨hne, rfl, hp⟩
          by_cases ht : t = []
          · exact .inr ⟨rfl, ht⟩
          · exact .inl ⟨t, ih.mpr ⟨ht, fun h => hne ⟨rfl, h⟩, hp⟩, rfl, rfl⟩

/-- The directories that a path lies in by its components, innermost first. -/
def enclosing (p : Path) : List Path := (beginnings p.components).map ofComponents

end Path

end GuestSync
