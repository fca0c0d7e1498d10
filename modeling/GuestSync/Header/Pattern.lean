/-
# GuestSync.Header.Pattern -- patterns over octets

A small pattern language with priorities: of all the ways in which a pattern can
match, the one that comes first counts. Repetition takes as many octets as it can
and gives them back one by one, the left of two alternatives is tried first, and
what may be missing is first taken to be there.

`Pattern.attempt` passes each way on to a continuation until one succeeds, which
is the same as going through a list of all ways in order of priority. `occurrences`
goes through a text from left to right, octet by octet, and passes over those that a
match has taken.
-/
import GuestSync.Bytes

namespace GuestSync

/-- A place in a text: the octet before it, the octets behind it, and how many
octets a match has taken to come here. -/
structure Cursor where
  before : Option UInt8
  rest : Bytes
  taken : Nat
  deriving DecidableEq, Repr

/-- A part of a text: the octets from its start on, and how many of them it has. -/
structure Span where
  start : Bytes
  size : Nat
  deriving DecidableEq, Repr

/-- A pattern over octets. -/
inductive Pattern where
  /-- The start of a line. -/
  | lineStart
  /-- A place between a word octet and another octet or an end of the text. -/
  | wordEdge
  /-- Nothing. -/
  | nothing
  /-- One octet of a class. -/
  | one (holds : UInt8 → Bool)
  /-- Octets of a class, as many as there are or else fewer. -/
  | many (holds : UInt8 → Bool)
  /-- One pattern and then another. -/
  | both (p q : Pattern)
  /-- One pattern or else another. -/
  | either (p q : Pattern)
  /-- A pattern or else nothing. -/
  | maybe (p : Pattern)
  /-- A pattern whose match is kept. -/
  | group (p : Pattern)

namespace Cursor

/-- Whether a line starts here: at the start of the text, behind a line feed, and
behind a carriage return that no line feed follows. -/
def atLineStart (c : Cursor) : Bool :=
  match c.before with
  | none => true
  | some b =>
    b == Ascii.lineFeed || (b == Ascii.carriageReturn && c.rest.head? != some Ascii.lineFeed)

/-- Whether exactly one of the two neighbours is a word octet. -/
def atWordEdge (c : Cursor) : Bool :=
  c.before.any Ascii.isWord != c.rest.head?.any Ascii.isWord

end Cursor

/-- The octets of a part. -/
def Span.text (s : Span) : Bytes := s.start.take s.size

namespace Pattern

/-- One pattern after another. -/
def sequence : List Pattern → Pattern
  | [] => .nothing
  | p :: r => .both p (sequence r)

/-- Tries the ends of a run of octets of a class, the farthest first. -/
def attemptMany {β : Type} (holds : UInt8 → Bool) (next : Cursor → Option β) :
    Option UInt8 → Nat → Bytes → Option β
  | before, taken, [] => next ⟨before, [], taken⟩
  | before, taken, b :: r =>
    if holds b then
      match attemptMany holds next (some b) (taken + 1) r with
      | some x => some x
      | none => next ⟨before, b :: r, taken⟩
    else next ⟨before, b :: r, taken⟩

/-- Tries the ways in which a pattern matches from a place on, in order of
priority, until the continuation accepts one. It is told the place behind the
match and the parts that are kept, the latest first. -/
def attempt {β : Type} :
    Pattern → (Cursor → List Span → Option β) → Cursor → List Span → Option β
  | .lineStart, next, c, kept => if c.atLineStart then next c kept else none
  | .wordEdge, next, c, kept => if c.atWordEdge then next c kept else none
  | .nothing, next, c, kept => next c kept
  | .one holds, next, c, kept =>
    match c.rest with
    | b :: r => if holds b then next ⟨some b, r, c.taken + 1⟩ kept else none
    | [] => none
  | .many holds, next, c, kept =>
    attemptMany holds (fun c => next c kept) c.before c.taken c.rest
  | .both p q, next, c, kept => p.attempt (fun c kept => q.attempt next c kept) c kept
  | .either p q, next, c, kept =>
    match p.attempt next c kept with
    | some x => some x
    | none => q.attempt next c kept
  | .maybe p, next, c, kept =>
    match p.attempt next c kept with
    | some x => some x
    | none => next c kept
  | .group p, next, c, kept =>
    p.attempt (fun d kept => next d (⟨c.rest, d.taken - c.taken⟩ :: kept)) c kept

/-- The match at a place: how many octets it takes, and the parts that are kept, in
the order of their ends. -/
def matchAt? (p : Pattern) (before : Option UInt8) (rest : Bytes) :
    Option (Nat × List Bytes) :=
  p.attempt (fun c kept => some (c.taken, (kept.map Span.text).reverse)) ⟨before, rest, 0⟩ []

/-- The parts kept by each match from a place on, once so many octets that a match
has taken are passed over. A match that takes nothing counts, and the next one
starts one octet further. -/
def matchesFrom (p : Pattern) : (skip : Nat) → Option UInt8 → Bytes → List (List Bytes)
  | _, before, [] => ((p.matchAt? before []).map (·.2)).toList
  | skip + 1, _, b :: r => p.matchesFrom skip (some b) r
  | 0, before, b :: r =>
    match p.matchAt? before (b :: r) with
    | some (size, parts) => parts :: p.matchesFrom (size - 1) (some b) r
    | none => p.matchesFrom 0 (some b) r

/-- The parts kept by each match in a text. -/
def occurrences (p : Pattern) (text : Bytes) : List (List Bytes) := p.matchesFrom 0 none text

end Pattern

end GuestSync
