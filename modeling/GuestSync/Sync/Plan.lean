/-
# GuestSync.Sync.Plan -- what is done with each entry

The plan of a pass is made from listings alone. A source file with a recognized
name is converted under the same name, and every other source entry is skipped
for the first reason that applies. A destination entry is stale when it is a file
or a broken link, has a recognized name, and no source file has that name; stale
entries are deleted and all others stay untouched.
-/
import GuestSync.Rule.Table
import GuestSync.Sync.Entry

namespace GuestSync

/-- Why a source entry is left alone. -/
inductive SkipReason where
  | nameNotText
  | unrecognizedSuffix
  | notAFile
  deriving DecidableEq, Repr

/-- The words for a reason. -/
def SkipReason.words : SkipReason → String
  | .nameNotText => "non-UTF-8 name"
  | .unrecognizedSuffix => "unrecognized suffix"
  | .notAFile => "not a file"

/-- What is done with one entry. -/
inductive Action where
  | convert (source destination : Path) (rule : Rule)
  | delete (path : Path)
  | skip (path : Path) (reason : SkipReason)
  deriving DecidableEq, Repr

namespace Entry

/-- The rule for an entry that is converted, or the reason why it is not. -/
def verdict (rules : RuleTable) (e : Entry) : Except SkipReason (String × Rule) :=
  match e.name with
  | none => .error .nameNotText
  | some name =>
    match rules.forName? name with
    | none => .error .unrecognizedSuffix
    | some rule => if e.kind = .file then .ok (name, rule) else .error .notAFile

/-- What is done with a source entry, given the destination directory. -/
def sourceAction (rules : RuleTable) (destination : Path) (e : Entry) : Action :=
  match e.verdict rules with
  | .ok (name, rule) => .convert e.path (destination.join (Path.ofString name)) rule
  | .error reason => .skip e.path reason

/-- The name under which a source entry is expected in the destination. -/
def expectedName? (rules : RuleTable) (e : Entry) : Option String :=
  match e.verdict rules with
  | .ok (name, _) => some name
  | .error _ => none

/-- Whether a destination entry is stale, given the names that are expected. -/
def isStale (rules : RuleTable) (expected : List String) (e : Entry) : Bool :=
  match e.name with
  | none => false
  | some name =>
    (e.kind == .file || e.kind == .broken) && rules.recognizes name && !expected.contains name

/-- What is done with a destination entry, given the names that are expected. -/
def destinationAction? (rules : RuleTable) (expected : List String) (e : Entry) :
    Option Action :=
  if e.isStale rules expected then some (.delete e.path) else none

end Entry

/-- What is done with the source entries, and the names that it leaves in the
destination. -/
structure Plan where
  actions : List Action
  expected : List String
  deriving DecidableEq, Repr

namespace Plan

/-- The plan for no entries. -/
def empty : Plan := ⟨[], []⟩

/-- The plan with one more source entry. -/
def add (rules : RuleTable) (destination : Path) (p : Plan) (e : Entry) : Plan :=
  { actions := p.actions ++ [e.sourceAction rules destination]
    expected :=
      match e.expectedName? rules with
      | some name => p.expected.insert name
      | none => p.expected }

/-- The plan for the entries of a source directory. -/
def ofSource (rules : RuleTable) (destination : Path) (entries : List Entry) : Plan :=
  entries.foldl (add rules destination) empty

/-- The deletions among the entries of the destination directory. -/
def deletions (rules : RuleTable) (p : Plan) (entries : List Entry) : List Action :=
  entries.filterMap fun e => e.destinationAction? rules p.expected

private theorem foldl_add_actions (rules : RuleTable) (destination : Path) (p : Plan)
    (entries : List Entry) :
    (entries.foldl (add rules destination) p).actions =
      p.actions ++ entries.map (Entry.sourceAction rules destination) := by
  induction entries generalizing p with
  | nil => simp
  | cons e es ih => simp [ih, add]

/-- Every source entry gets its own action, in the order of the entries. -/
theorem ofSource_actions (rules : RuleTable) (destination : Path) (entries : List Entry) :
    (ofSource rules destination entries).actions =
      entries.map (Entry.sourceAction rules destination) := by
  simp [ofSource, foldl_add_actions, empty]

private theorem mem_foldl_add_expected (rules : RuleTable) (destination : Path) (p : Plan)
    (entries : List Entry) (name : String) :
    name ∈ (entries.foldl (add rules destination) p).expected ↔
      name ∈ p.expected ∨ ∃ e ∈ entries, e.expectedName? rules = some name := by
  induction entries generalizing p with
  | nil => simp
  | cons e es ih =>
    rw [List.foldl_cons, ih]
    cases h : e.expectedName? rules with
    | none => simp [add, h]
    | some n => simp [add, h, List.mem_insert_iff, or_assoc, eq_comm, or_left_comm]

/-- A name is expected exactly if a source entry is converted under it. -/
theorem mem_ofSource_expected (rules : RuleTable) (destination : Path) (entries : List Entry)
    (name : String) :
    name ∈ (ofSource rules destination entries).expected ↔
      ∃ e ∈ entries, e.expectedName? rules = some name := by
  simp [ofSource, mem_foldl_add_expected, empty]

end Plan

end GuestSync
