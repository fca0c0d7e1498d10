/-
# GuestSync.Proofs.MemberScan -- members read off from left to right

The pattern for members has repetitions, an alternative and parts that may be
missing, and a match is the first way in which all of them fit. `scan` knows no
second try. It goes to the first line start at which a member stands, takes every
part as far as its octets go, reads the word behind the equals sign as a number or
not at all, and goes on behind that word. Both find the same names and numbers in
every text.

What makes this work is that no part of a member can start with an octet of the part
before it: a blank is no word octet, a word octet is no equals sign, and no ending of
a number starts with a digit of either base.
-/
import GuestSync.Header.Member
import GuestSync.Proofs.PatternRuns

namespace GuestSync

open Ascii

namespace Ascii

theorem isWord_of_isDigit {b : UInt8} (h : isDigit b) : isWord b := by
  simp [isWord, h]

theorem isHexDigit_of_isDigit {b : UInt8} (h : isDigit b) : isHexDigit b := by
  simp [isHexDigit, h]

theorem isWord_of_isHexDigit : ∀ {b : UInt8}, isHexDigit b → isWord b := by decide +kernel

theorem not_isWord_of_isSpace : ∀ {b : UInt8}, isSpace b → ¬ isWord b := by decide +kernel

end Ascii

namespace Member

/-! ## Numbers as whole words -/

/-- Whether octets are what may stand behind the digits of a number: the letters `u`
and `l` in this order, each at most once and in either case. -/
def isEnding (e : Bytes) : Bool := [[], [0x75], [0x6C], [0x75, 0x6C]].contains (e.map toLower)

/-- Octets that spell a number. -/
inductive Numeral : Bytes → Prop
  | decimal {ds : Bytes} (nonempty : ds ≠ []) (digits : ∀ d ∈ ds, isDigit d) : Numeral ds
  | hexadecimal {x : UInt8} {ds : Bytes} (mark : toLower x = 0x78) (nonempty : ds ≠ [])
      (digits : ∀ d ∈ ds, isHexDigit d) : Numeral (0x30 :: x :: ds)

/-- The octets up to the last digit behind a mark for the base, if there is a digit
and nothing but an ending follows the digits. -/
def digitsBehind (mark : Bytes) (holds : UInt8 → Bool) (r : Bytes) : Option Bytes :=
  if r.takeWhile holds ≠ [] ∧ isEnding (r.dropWhile holds) then some (mark ++ r.takeWhile holds)
  else none

/-- The number that a word spells as a whole, without its ending. -/
def numeralOf? : Bytes → Option Bytes
  | z :: x :: r =>
    if z = 0x30 ∧ toLower x = 0x78 then digitsBehind [z, x] isHexDigit r
    else digitsBehind [] isDigit (z :: x :: r)
  | w => digitsBehind [] isDigit w

theorem isEnding_cons_of_isHexDigit {d : UInt8} (h : isHexDigit d) (r : Bytes) :
    isEnding (d :: r) = false := by
  have hd : ∀ d : UInt8, isHexDigit d → toLower d ≠ 0x75 ∧ toLower d ≠ 0x6C := by decide +kernel
  simp [isEnding, hd d h]

theorem isEnding_cons_of_mark {x : UInt8} (h : toLower x = 0x78) (r : Bytes) :
    isEnding (x :: r) = false := by
  simp [isEnding, h]

theorem not_isDigit_of_mark : ∀ {x : UInt8}, toLower x = 0x78 → isDigit x = false := by
  decide +kernel

/-- Where an ending stands behind digits, the digits are all there are. -/
theorem split_at_ending {holds : UInt8 → Bool} (hdigit : ∀ d, holds d → isHexDigit d)
    {ds e : Bytes} (hds : ∀ d ∈ ds, holds d) (he : isEnding e) :
    (ds ++ e).takeWhile holds = ds ∧ (ds ++ e).dropWhile holds = e := by
  have hstop : e.takeWhile holds = [] ∧ e.dropWhile holds = e := by
    cases e with
    | nil => simp
    | cons b r =>
      have hb : holds b = false := by
        by_contra hb
        rw [isEnding_cons_of_isHexDigit (hdigit b (by simpa using hb))] at he
        simp at he
      simp [hb]
  rw [List.takeWhile_append_of_pos hds, List.dropWhile_append_of_pos hds, hstop.1, hstop.2,
    List.append_nil]
  exact ⟨rfl, rfl⟩

theorem digitsBehind_eq_some {mark r n : Bytes} {holds : UInt8 → Bool}
    (hdigit : ∀ d, holds d → isHexDigit d) :
    digitsBehind mark holds r = some n ↔
      ∃ ds e, n = mark ++ ds ∧ r = ds ++ e ∧ ds ≠ [] ∧ (∀ d ∈ ds, holds d) ∧ isEnding e := by
  unfold digitsBehind
  rw [Option.ite_none_right_eq_some, Option.some_inj]
  constructor
  · rintro ⟨⟨hne, he⟩, rfl⟩
    exact ⟨_, _, rfl, List.takeWhile_append_dropWhile.symm, hne,
      fun d hd => List.mem_takeWhile_imp hd, he⟩
  · rintro ⟨ds, e, rfl, rfl, hne, hds, he⟩
    obtain ⟨htake, hdrop⟩ := split_at_ending hdigit hds he
    rw [htake, hdrop]
    exact ⟨⟨hne, he⟩, rfl⟩

theorem numeralOf?_of_mark {x : UInt8} (h : toLower x = 0x78) (r : Bytes) :
    numeralOf? (0x30 :: x :: r) = digitsBehind [0x30, x] isHexDigit r := by
  rw [numeralOf?, if_pos ⟨rfl, h⟩]

theorem numeralOf?_of_no_mark {w : Bytes}
    (h : ∀ x r, w = 0x30 :: x :: r → toLower x ≠ 0x78) :
    numeralOf? w = digitsBehind [] isDigit w := by
  unfold numeralOf?
  split
  · next z x r =>
    rw [if_neg]
    rintro ⟨rfl, hx⟩
    exact h x r rfl hx
  · rfl

/-- A word spells a number exactly if it is a numeral with an ending, and in one way
only. -/
theorem numeralOf?_eq_some {w n : Bytes} :
    numeralOf? w = some n ↔ ∃ e, w = n ++ e ∧ Numeral n ∧ isEnding e := by
  by_cases hmark : ∃ x r, w = 0x30 :: x :: r ∧ toLower x = 0x78
  · obtain ⟨x, r, rfl, hx⟩ := hmark
    rw [numeralOf?_of_mark hx, digitsBehind_eq_some fun _ h => h]
    constructor
    · rintro ⟨ds, e, rfl, rfl, hne, hds, he⟩
      exact ⟨e, rfl, .hexadecimal hx hne hds, he⟩
    · rintro ⟨e, hw, hn, he⟩
      cases hn with
      | hexadecimal mark nonempty digits =>
        obtain ⟨rfl, rfl⟩ : x = _ ∧ r = _ := by simpa using hw
        exact ⟨_, e, rfl, rfl, nonempty, digits, he⟩
      | decimal nonempty digits =>
        -- The mark is no digit, so the digits would be the `0` alone, and the mark an ending.
        obtain ⟨d, ds, rfl⟩ := List.exists_cons_of_ne_nil nonempty
        cases ds with
        | nil =>
          obtain ⟨-, rfl⟩ : _ ∧ x :: r = e := by simpa using hw
          simp [isEnding_cons_of_mark hx] at he
        | cons d' ds =>
          obtain ⟨-, rfl, -⟩ : _ ∧ x = d' ∧ _ := by simpa using hw
          have hdigit := digits x (by simp)
          simp [not_isDigit_of_mark hx] at hdigit
  · push Not at hmark
    rw [numeralOf?_of_no_mark hmark, digitsBehind_eq_some fun _ h => isHexDigit_of_isDigit h]
    constructor
    · rintro ⟨ds, e, rfl, rfl, hne, hds, he⟩
      exact ⟨e, rfl, .decimal hne hds, he⟩
    · rintro ⟨e, rfl, hn, he⟩
      cases hn with
      | decimal nonempty digits => exact ⟨n, e, rfl, rfl, nonempty, digits, he⟩
      | hexadecimal mark nonempty digits => exact absurd mark (hmark _ _ rfl)

example : ["0X1fUL", "1ull", "0x", "12ab", "1lu"].map (numeralOf? ∘ Utf8.ofString) =
    [some (Utf8.ofString "0X1f"), none, none, none, none] := by decide

/-! ## The scanner -/

/-- Whether a line starts between the octet before and the octets behind: at the start
of the text, behind a line feed, and behind a carriage return that no line feed
follows. -/
def startsLine (before : Option UInt8) (bs : Bytes) : Bool :=
  before = none ∨ before = some lineFeed ∨
    before = some carriageReturn ∧ bs.head? ≠ some lineFeed

/-- A member as it is found: its name, its number, the word that spells the number
with its ending, and what follows that word. -/
structure Found where
  name : Bytes
  numeral : Bytes
  word : Bytes
  rest : Bytes
  deriving DecidableEq, Repr

/-- The member at the front of some octets, with blanks before it. Every part is taken
as far as its octets go. -/
def memberAt? (bs : Bytes) : Option Found :=
  let atName := bs.dropWhile isSpace
  let name := atName.takeWhile isWord
  match (atName.dropWhile isWord).dropWhile isSpace with
  | [] => none
  | b :: r =>
    let atWord := r.dropWhile isSpace
    let word := atWord.takeWhile isWord
    if name ≠ [] ∧ b = 0x3D then
      (numeralOf? word).map fun numeral => ⟨name, numeral, word, atWord.dropWhile isWord⟩
    else none

/-- The member at a place, if a line starts there. -/
def memberHere? (before : Option UInt8) (bs : Bytes) : Option Found :=
  if startsLine before bs then memberAt? bs else none

theorem memberAt?_nil : memberAt? [] = none := rfl

/-- A member ends with its word. -/
theorem memberAt?_eq_some {bs : Bytes} {m : Found} (h : memberAt? bs = some m) :
    ∃ front, bs = front ++ m.word ++ m.rest ∧ m.word ≠ [] := by
  unfold memberAt? at h
  dsimp only at h
  split at h
  · simp at h
  · next b r hsign =>
    rw [Option.ite_none_right_eq_some, Option.map_eq_some_iff] at h
    obtain ⟨-, n, hn, rfl⟩ := h
    obtain ⟨x, hx⟩ := List.dropWhile_suffix isSpace (l := bs)
    obtain ⟨y, hy⟩ := List.dropWhile_suffix isWord (l := bs.dropWhile isSpace)
    obtain ⟨z, hz⟩ := List.dropWhile_suffix isSpace (l := (bs.dropWhile isSpace).dropWhile isWord)
    obtain ⟨u, hu⟩ := List.dropWhile_suffix isSpace (l := r)
    refine ⟨x ++ y ++ z ++ b :: u, ?_, ?_⟩
    · rw [List.append_assoc, List.takeWhile_append_dropWhile]
      simp only [List.append_assoc, List.cons_append, hu, ← hsign, hz, hy, hx]
    · intro hnil
      dsimp only at hnil
      rw [hnil] at hn
      simp [numeralOf?, digitsBehind] at hn

/-- The octets up to the end of a member: there are some, and the last is that of its
word. -/
theorem memberHere?_eq_some {before : Option UInt8} {bs : Bytes} {m : Found}
    (h : memberHere? before bs = some m) :
    ∃ b t, bs = b :: t ++ m.rest ∧ (b :: t).getLast? = m.word.getLast? := by
  unfold memberHere? at h
  split at h
  · obtain ⟨front, hbs, hword⟩ := memberAt?_eq_some h
    obtain ⟨b, t, ht⟩ :=
      List.exists_cons_of_ne_nil (List.append_ne_nil_of_right_ne_nil front hword)
    refine ⟨b, t, by rw [hbs, ht], ?_⟩
    rw [← ht, List.getLast?_append_of_ne_nil _ hword]
  · simp at h

/-- The names and numbers of the members behind a place. The first place at which a
member stands counts, and the next member is looked for behind the word of that one. -/
def scanFrom (before : Option UInt8) (bs : Bytes) : List (Bytes × Bytes) :=
  match bs with
  | [] => []
  | b :: r =>
    match _h : memberHere? before (b :: r) with
    | some m => (m.name, m.numeral) :: scanFrom m.word.getLast? m.rest
    | none => scanFrom (some b) r
termination_by bs.length
decreasing_by
  · obtain ⟨b', t, hbs, -⟩ := memberHere?_eq_some _h
    simp [hbs]
  · simp

/-- The names and numbers of the members of a header. -/
def scan (header : Bytes) : List (Bytes × Bytes) := scanFrom none header

/-! ## The rest of a word -/

variable {β : Type}

open Pattern

/-- The pattern reads all that is left of a word, if that is acceptable. -/
def ReadsWord (p : Pattern) (accepts : Bytes → Bool) : Prop :=
  ∀ (β : Type) (next : Cursor → List Span → Option β) (c : Cursor) (kept : List Span),
    c.before.any isWord → p.attempt next c kept =
      if accepts (c.rest.takeWhile isWord) then next (c.past isWord) kept else none

theorem readsWord_wordEdge : ReadsWord (.both .wordEdge .nothing) (· == []) := by
  rintro β next ⟨before, rest, taken⟩ kept hbefore
  dsimp only at hbefore
  have hedge : (⟨before, rest, taken⟩ : Cursor).atWordEdge = (rest.takeWhile isWord == []) := by
    unfold Cursor.atWordEdge
    dsimp only
    rw [hbefore]
    cases rest with
    | nil => rfl
    | cons b r => by_cases hb : isWord b <;> simp [hb]
  simp only [attempt, hedge]
  split
  · next h => rw [Cursor.past_of_takeWhile_nil (by simpa using h)]
  · rfl

/-- Words that are acceptable once a letter is taken away from their front, if it is
there. -/
def behindLetter (a : UInt8) (accepts : Bytes → Bool) : Bytes → Bool
  | b :: r => if toLower b = a then accepts r else accepts (b :: r)
  | [] => accepts []

theorem readsWord_letter {p : Pattern} {accepts : Bytes → Bool} {a : UInt8}
    (h : ReadsWord p accepts) (ha : ∀ b, toLower b = a → isWord b)
    (hfirst : ∀ b r, toLower b = a → accepts (b :: r) = false) :
    ReadsWord (.both (.maybe (letter a)) p) (behindLetter a accepts) := by
  rintro β next ⟨before, rest, taken⟩ kept hbefore
  have hskip := h β next ⟨before, rest, taken⟩ kept hbefore
  cases rest with
  | nil => exact hskip
  | cons b r =>
    by_cases hb : toLower b = a
    · -- Taking the letter is tried first, and leaving it leads nowhere.
      have hword := ha b hb
      have htake := h β next ⟨some b, r, taken + 1⟩ kept hword
      rw [List.takeWhile_cons_of_pos hword, hfirst b _ hb] at hskip
      simp only [attempt, letter, hb, beq_self_eq_true, if_true, htake, hskip,
        List.takeWhile_cons_of_pos hword, behindLetter, Cursor.past_cons hword]
      split <;> simp_all
    · have haccepts : behindLetter a accepts ((b :: r).takeWhile isWord) =
          accepts ((b :: r).takeWhile isWord) := by
        by_cases hword : isWord b
        · rw [List.takeWhile_cons_of_pos hword, behindLetter, if_neg hb]
        · rw [List.takeWhile_cons_of_neg hword, behindLetter]
      simp only [attempt, letter, beq_iff_eq, hb, if_false, hskip, haccepts]

theorem isEnding_eq (e : Bytes) :
    isEnding e = behindLetter 0x75 (behindLetter 0x6C (· == [])) e := by
  rcases e with _ | ⟨b, _ | ⟨c, _ | ⟨d, r⟩⟩⟩
  · rfl
  all_goals
    simp only [isEnding, behindLetter, List.map]
    grind

/-- What may stand behind the digits of a number, up to the end of the word. -/
def ending : Pattern :=
  .both (.maybe (letter 0x75)) (.both (.maybe (letter 0x6C)) (.both .wordEdge .nothing))

theorem readsWord_ending : ReadsWord ending isEnding := by
  have hu : ∀ b : UInt8, toLower b = 0x75 → isWord b := by decide +kernel
  have hl : ∀ b : UInt8, toLower b = 0x6C → isWord b := by decide +kernel
  have hlong : ReadsWord _ (behindLetter 0x6C (· == [])) :=
    readsWord_letter readsWord_wordEdge hl fun _ _ _ => rfl
  have hboth : ReadsWord ending (behindLetter 0x75 (behindLetter 0x6C (· == []))) := by
    apply readsWord_letter hlong hu
    intro b r hb
    simp [behindLetter, hb]
  rw [← funext isEnding_eq] at hboth
  exact hboth

/-! ## The number -/

section Number

variable {next : Cursor → List Span → Option β} {c : Cursor} {kept : List Span}

/-- One or more octets of a class, if what comes next cannot start with one of them. -/
theorem attempt_oneOrMore {holds : UInt8 → Bool}
    (hstop : ∀ b' b r taken kept, holds b' → holds b → next ⟨some b', b :: r, taken⟩ kept = none) :
    (oneOrMore holds).attempt next c kept =
      if c.rest.takeWhile holds = [] then none else next (c.past holds) kept := by
  obtain ⟨before, rest, taken⟩ := c
  cases rest with
  | nil => rfl
  | cons b r =>
    by_cases hb : holds b
    · have hmany := attemptMany_eq (fun c => next c kept)
        (fun before => ∃ b', before = some b' ∧ holds b') (fun b hb => ⟨b, rfl, hb⟩)
        (by rintro _ b r taken ⟨b', rfl, hb'⟩ hb; exact hstop b' b r taken kept hb' hb)
        ⟨some b, r, taken + 1⟩ ⟨b, rfl, hb⟩
      simp only [oneOrMore, attempt, hb, if_true, Cursor.past_cons hb,
        List.takeWhile_cons_of_pos hb, reduceCtorEq, if_false]
      exact hmany
    · simp [oneOrMore, attempt, hb]

/-- No ending starts with a digit. -/
theorem attempt_ending_digit {b' b : UInt8} (hb' : isHexDigit b') (hb : isHexDigit b) (r : Bytes)
    (taken : Nat) : ending.attempt next ⟨some b', b :: r, taken⟩ kept = none := by
  have hbefore : (some b').any isWord := isWord_of_isHexDigit hb'
  rw [readsWord_ending _ _ _ _ hbefore, List.takeWhile_cons_of_pos (isWord_of_isHexDigit hb),
    isEnding_cons_of_isHexDigit hb]
  rfl

/-- Digits of a base and the rest of their word. `span` is the part that is kept. -/
theorem attempt_digits {holds : UInt8 → Bool} (hdigit : ∀ b, holds b → isHexDigit b)
    (span : Cursor → Span) :
    (oneOrMore holds).attempt (fun d kept => ending.attempt next d (span d :: kept)) c kept =
      if c.rest.takeWhile holds ≠ [] ∧ isEnding ((c.rest.dropWhile holds).takeWhile isWord) then
        next (c.past isWord) (span (c.past holds) :: kept)
      else none := by
  have hword : ∀ b, holds b → isWord b := fun b hb => isWord_of_isHexDigit (hdigit b hb)
  have hstop : ∀ b' b r taken kept, holds b' → holds b →
      ending.attempt next ⟨some b', b :: r, taken⟩ (span ⟨some b', b :: r, taken⟩ :: kept) = none :=
    fun b' b r taken kept hb' hb => attempt_ending_digit (hdigit b' hb') (hdigit b hb) r taken
  rw [attempt_oneOrMore hstop]
  by_cases hnil : c.rest.takeWhile holds = []
  · simp [hnil]
  · have hbefore : (c.past holds).before.any isWord := by
      obtain ⟨b, hb⟩ := Option.ne_none_iff_exists'.mp (mt List.getLast?_eq_none_iff.mp hnil)
      have hlast : holds b := List.mem_takeWhile_imp (List.mem_of_getLast? hb)
      simp [Cursor.past, hb, hword b hlast]
    rw [if_neg hnil, readsWord_ending _ _ _ _ hbefore, Cursor.past_past hword]
    exact if_congr (by simp [hnil, Cursor.past]) rfl rfl

/-- Inside a word the octets of a smaller class end where they end in the text. -/
theorem takeWhile_word {holds : UInt8 → Bool} (h : ∀ b, holds b → isWord b) (r : Bytes) :
    (r.takeWhile isWord).takeWhile holds = r.takeWhile holds ∧
      (r.takeWhile isWord).dropWhile holds = (r.dropWhile holds).takeWhile isWord := by
  induction r with
  | nil => simp
  | cons b r ih =>
    by_cases hb : holds b
    · simp [hb, h b hb, ih]
    · by_cases hword : isWord b <;> simp [hb, hword]

theorem digitsBehind_word {holds : UInt8 → Bool} (h : ∀ b, holds b → isWord b) (mark r : Bytes) :
    digitsBehind mark holds (r.takeWhile isWord) =
      if r.takeWhile holds ≠ [] ∧ isEnding ((r.dropWhile holds).takeWhile isWord) then
        some (mark ++ r.takeWhile holds)
      else none := by
  rw [digitsBehind, (takeWhile_word h r).1, (takeWhile_word h r).2]

theorem attempt_hexLiteral_of_mark {x : UInt8} (hx : toLower x = 0x78) (before : Option UInt8)
    (r : Bytes) (taken : Nat) :
    hexLiteral.attempt next ⟨before, 0x30 :: x :: r, taken⟩ kept =
      (oneOrMore isHexDigit).attempt next ⟨some x, r, taken + 2⟩ kept := by
  simp [hexLiteral, Pattern.sequence, attempt, letter, hx]

theorem attempt_hexLiteral_of_no_mark
    (h : ∀ x r, c.rest = 0x30 :: x :: r → toLower x ≠ 0x78) :
    hexLiteral.attempt next c kept = none := by
  obtain ⟨before, rest, taken⟩ := c
  rcases rest with _ | ⟨z, _ | ⟨x, r⟩⟩
  · rfl
  · simp [hexLiteral, Pattern.sequence, attempt, letter]
  · by_cases hz : z = 0x30
    · subst hz
      simp [hexLiteral, Pattern.sequence, attempt, letter, h x r rfl]
    · simp [hexLiteral, Pattern.sequence, attempt, hz]

/-- Behind its mark a number is read to the base sixteen or not at all. -/
private theorem attempt_number_of_mark {x : UInt8} {r : Bytes} {before : Option UInt8} {taken : Nat}
    (hx : toLower x = 0x78) :
    (Pattern.both (.group literal) ending).attempt next ⟨before, 0x30 :: x :: r, taken⟩ kept =
      (numeralOf? ((0x30 :: x :: r : Bytes).takeWhile isWord)).bind fun n =>
        next ((⟨before, 0x30 :: x :: r, taken⟩ : Cursor).past isWord)
          (⟨0x30 :: x :: r, n.length⟩ :: kept) := by
  have hword : ∀ x : UInt8, toLower x = 0x78 → isWord x := by decide +kernel
  have hzero : isWord 0x30 := by decide
  -- As a decimal number it would be `0`, and the mark is no ending.
  have hno : ((0x30 :: x :: r : Bytes).dropWhile isDigit).takeWhile isWord =
      x :: r.takeWhile isWord := by
    rw [List.dropWhile_cons_of_pos (by decide),
      List.dropWhile_cons_of_neg (by simp [not_isDigit_of_mark hx]),
      List.takeWhile_cons_of_pos (hword x hx)]
  show literal.attempt (fun d kept => ending.attempt next d
    ((fun d => ⟨0x30 :: x :: r, d.taken - taken⟩ : Cursor → Span) d :: kept)) _ kept = _
  rw [literal, attempt_either, attempt_digits fun _ hb => isHexDigit_of_isDigit hb,
    attempt_hexLiteral_of_mark hx, attempt_digits fun _ hb => hb]
  dsimp only
  rw [hno, isEnding_cons_of_mark hx, List.takeWhile_cons_of_pos hzero,
    List.takeWhile_cons_of_pos (hword x hx), numeralOf?_of_mark hx,
    digitsBehind_word fun _ hb => isWord_of_isHexDigit hb, Cursor.past_cons hzero,
    Cursor.past_cons (hword x hx)]
  simp only [Bool.false_eq_true, and_false, if_false, Option.or_none]
  split
  · rw [Option.bind_some]
    congr 3
    simp only [Cursor.past, List.length_append, List.length_cons, List.length_nil]
    omega
  · rfl

variable (next c kept) in
/-- **A number is read as a whole word.** -/
theorem attempt_number :
    (Pattern.both (.group literal) ending).attempt next c kept =
      (numeralOf? (c.rest.takeWhile isWord)).bind fun n =>
        next (c.past isWord) (⟨c.rest, n.length⟩ :: kept) := by
  by_cases hmark : ∃ x r, c.rest = 0x30 :: x :: r ∧ toLower x = 0x78
  · obtain ⟨before, rest, taken⟩ := c
    obtain ⟨x, r, rfl, hx⟩ := hmark
    exact attempt_number_of_mark hx
  · push Not at hmark
    have hmark' : ∀ x r, c.rest.takeWhile isWord = 0x30 :: x :: r → toLower x ≠ 0x78 := by
      intro x r hr
      obtain ⟨t, ht⟩ := List.takeWhile_prefix isWord (l := c.rest)
      exact hmark x (r ++ t) (by rw [← ht, hr]; rfl)
    show literal.attempt (fun d kept => ending.attempt next d
      ((fun d => ⟨c.rest, d.taken - c.taken⟩ : Cursor → Span) d :: kept)) c kept = _
    rw [literal, attempt_either, attempt_digits fun _ hb => isHexDigit_of_isDigit hb,
      attempt_hexLiteral_of_no_mark hmark, numeralOf?_of_no_mark hmark',
      digitsBehind_word fun _ hb => isWord_of_isDigit hb, Option.none_or]
    split
    · simp [Cursor.past]
    · rfl

end Number

/-! ## The whole member -/

section Whole

variable {next : Cursor → List Span → Option β} {c : Cursor} {kept : List Span}

/-- What follows the equals sign. -/
def valuePart : Pattern := .both (.many isSpace) (.both (.group literal) ending)

/-- What follows the name. -/
def signPart : Pattern := .both (.many isSpace) (.both (.one (· == 0x3D)) valuePart)

/-- What follows the start of the line. -/
def memberPart : Pattern := .both (.many isSpace) (.both (.group (oneOrMore isWord)) signPart)

/-- Blanks in front of what cannot start with a blank. -/
theorem attempt_blanks {p : Pattern}
    (hstop : ∀ before b r taken, isSpace b → p.attempt next ⟨before, b :: r, taken⟩ kept = none) :
    (Pattern.both (.many isSpace) p).attempt next c kept = p.attempt next (c.past isSpace) kept :=
  attemptMany_eq _ (fun _ => True) (fun _ _ => trivial)
    (fun before b r taken _ hb => hstop before b r taken hb) c trivial

theorem attempt_valuePart :
    valuePart.attempt next c kept =
      (numeralOf? ((c.rest.dropWhile isSpace).takeWhile isWord)).bind fun n =>
        next ((c.past isSpace).past isWord) (⟨c.rest.dropWhile isSpace, n.length⟩ :: kept) := by
  unfold valuePart
  rw [attempt_blanks]
  · exact attempt_number next (c.past isSpace) kept
  · intro before b r taken hb
    rw [attempt_number, List.takeWhile_cons_of_neg (not_isWord_of_isSpace hb)]
    rfl

theorem attempt_signPart :
    signPart.attempt next c kept =
      match c.rest.dropWhile isSpace with
      | [] => none
      | b :: r =>
        if b = 0x3D then valuePart.attempt next ⟨some b, r, (c.past isSpace).taken + 1⟩ kept
        else none := by
  have hsign : ∀ b : UInt8, isSpace b → b ≠ 0x3D := by decide +kernel
  have hrest : (c.past isSpace).rest = c.rest.dropWhile isSpace := rfl
  unfold signPart
  rw [attempt_blanks]
  · simp only [attempt, hrest]
    cases c.rest.dropWhile isSpace with
    | nil => rfl
    | cons b r => simp
  · intro before b r taken hb
    simp [attempt, hsign b hb]

theorem attempt_name :
    (Pattern.both (.group (oneOrMore isWord)) signPart).attempt next c kept =
      if c.rest.takeWhile isWord = [] then none
      else signPart.attempt next (c.past isWord)
        (⟨c.rest, (c.rest.takeWhile isWord).length⟩ :: kept) := by
  show (oneOrMore isWord).attempt
    (fun d kept => signPart.attempt next d (⟨c.rest, d.taken - c.taken⟩ :: kept)) c kept = _
  rw [attempt_oneOrMore]
  · simp [Cursor.past]
  · intro b' b r taken kept _ hb
    have hspace : ¬ isSpace b := fun h => not_isWord_of_isSpace h hb
    have hsign : b ≠ 0x3D := by
      rintro rfl
      exact absurd hb (by decide)
    rw [attempt_signPart, List.dropWhile_cons_of_neg hspace]
    simp [hsign]

theorem attempt_memberPart :
    memberPart.attempt next c kept =
      if (c.rest.dropWhile isSpace).takeWhile isWord = [] then none
      else signPart.attempt next ((c.past isSpace).past isWord)
        (⟨c.rest.dropWhile isSpace, ((c.rest.dropWhile isSpace).takeWhile isWord).length⟩ ::
          kept) := by
  unfold memberPart
  rw [attempt_blanks]
  · exact attempt_name
  · intro before b r taken hb
    rw [attempt_name, List.takeWhile_cons_of_neg (not_isWord_of_isSpace hb), if_pos rfl]

end Whole

/-! ## Both find the same -/

/-- What a match answers: how many octets it takes, and the parts that it keeps. -/
def answer (c : Cursor) (kept : List Span) : Option (Nat × List Bytes) :=
  some (c.taken, (kept.map Span.text).reverse)

theorem take_length_takeWhile (holds : UInt8 → Bool) (l : Bytes) :
    l.take (l.takeWhile holds).length = l.takeWhile holds :=
  (List.prefix_iff_eq_take.mp (List.takeWhile_prefix holds)).symm

/-- A number stands at the front of its word. -/
theorem take_length_numeral {l n : Bytes} (h : numeralOf? (l.takeWhile isWord) = some n) :
    l.take n.length = n := by
  obtain ⟨e, he, -⟩ := numeralOf?_eq_some.mp h
  have hp : n <+: l := (he ▸ List.prefix_append n e).trans (List.takeWhile_prefix isWord)
  exact (List.prefix_iff_eq_take.mp hp).symm

theorem attempt_valuePart_answer (c : Cursor) (name : Span) :
    valuePart.attempt answer c [name] =
      (numeralOf? ((c.rest.dropWhile isSpace).takeWhile isWord)).map fun n =>
        (c.taken + c.rest.length - ((c.rest.dropWhile isSpace).dropWhile isWord).length,
          [name.text, n]) := by
  rw [attempt_valuePart]
  cases hnumeral : numeralOf? ((c.rest.dropWhile isSpace).takeWhile isWord) with
  | none => rfl
  | some n =>
    have hlength : ((c.past isSpace).past isWord).taken +
        ((c.rest.dropWhile isSpace).dropWhile isWord).length = c.taken + c.rest.length :=
      ((c.past isSpace).past_length isWord).trans (c.past_length isSpace)
    rw [Option.bind_some, Option.map_some, answer, ← hlength, Nat.add_sub_cancel]
    simp [Span.text, take_length_numeral hnumeral]

theorem attempt_memberPart_answer (before : Option UInt8) (bs : Bytes) :
    memberPart.attempt answer ⟨before, bs, 0⟩ [] =
      (memberAt? bs).map fun m => (bs.length - m.rest.length, [m.name, m.numeral]) := by
  have hlength : ((((⟨before, bs, 0⟩ : Cursor).past isSpace).past isWord).past isSpace).taken +
      (((bs.dropWhile isSpace).dropWhile isWord).dropWhile isSpace).length = bs.length :=
    (Cursor.past_length _ _).trans ((Cursor.past_length _ _).trans
      ((Cursor.past_length _ _).trans (Nat.zero_add _)))
  rw [attempt_memberPart, attempt_signPart]
  unfold memberAt?
  dsimp only [Cursor.past] at hlength ⊢
  rcases hsign : ((bs.dropWhile isSpace).dropWhile isWord).dropWhile isSpace with _ | ⟨b, r⟩
  · simp only [ite_self, Option.map_none]
  · rw [hsign, List.length_cons, ← Nat.add_assoc] at hlength
    dsimp only
    by_cases hgo : (bs.dropWhile isSpace).takeWhile isWord ≠ [] ∧ b = 0x3D
    · obtain ⟨hname, rfl⟩ := hgo
      rw [if_neg hname, if_pos rfl, if_pos ⟨hname, rfl⟩, attempt_valuePart_answer, Option.map_map]
      simp only [Span.text, take_length_takeWhile, Nat.add_right_comm _ 1, hlength]
      rfl
    · rw [if_neg hgo]
      push Not at hgo
      split
      · rfl
      · next hname => rw [if_neg (hgo hname)]; rfl

theorem atLineStart_eq (before : Option UInt8) (bs : Bytes) (taken : Nat) :
    (⟨before, bs, taken⟩ : Cursor).atLineStart = startsLine before bs := by
  cases before <;> simp [Cursor.atLineStart, startsLine, bne, beq_eq_decide]

/-- **A match is a member.** -/
theorem matchAt?_pattern (before : Option UInt8) (bs : Bytes) :
    pattern.matchAt? before bs =
      (memberHere? before bs).map fun m => (bs.length - m.rest.length, [m.name, m.numeral]) := by
  show (if (⟨before, bs, 0⟩ : Cursor).atLineStart then
    memberPart.attempt answer ⟨before, bs, 0⟩ [] else none) = _
  rw [atLineStart_eq]
  unfold memberHere?
  split
  · exact attempt_memberPart_answer before bs
  · rfl

/-- The name and the number among the parts that a match keeps. -/
def pair? : List Bytes → Option (Bytes × Bytes)
  | [name, numeral] => some (name, numeral)
  | _ => none

theorem matchesFrom_eq_scanFrom (before : Option UInt8) (bs : Bytes) :
    (pattern.matchesFrom 0 before bs).filterMap pair? = scanFrom before bs := by
  fun_induction scanFrom before bs with
  | case1 before =>
    have hnone : pattern.matchAt? before [] = none := by
      rw [matchAt?_pattern, memberHere?, memberAt?_nil, ite_self]
      rfl
    rw [Pattern.matchesFrom, hnone]
    rfl
  | case2 before b r m hm ih =>
    obtain ⟨b', t, hbs, hlast⟩ := memberHere?_eq_some hm
    rw [List.cons_append, List.cons.injEq] at hbs
    obtain ⟨rfl, rfl⟩ := hbs
    have hsize : (b :: (t ++ m.rest)).length - m.rest.length - 1 = t.length := by
      simp only [List.length_cons, List.length_append]
      omega
    rw [Pattern.matchesFrom, matchAt?_pattern, hm, Option.map_some]
    dsimp only
    rw [hsize, matchesFrom_skip, ← ih, ← hlast, List.getLast?_cons]
    cases t.getLast? <;> rfl
  | case3 before b r hm ih =>
    rw [Pattern.matchesFrom, matchAt?_pattern, hm]
    exact ih

/-- **The members of a header are those that the scanner finds**, with the same names
and numbers in the same order. A word is read as a number exactly if it is one as a
whole, up to an ending. -/
theorem literals_exact (header : Bytes) :
    literals header = scan header ∧
      ∀ word numeral, numeralOf? word = some numeral ↔
        ∃ e, word = numeral ++ e ∧ Numeral numeral ∧ isEnding e :=
  ⟨matchesFrom_eq_scanFrom none header, fun _ _ => numeralOf?_eq_some⟩

end Member

end GuestSync
