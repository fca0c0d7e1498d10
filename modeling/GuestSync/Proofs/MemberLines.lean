/-
# GuestSync.Proofs.MemberLines -- members at the front of their lines

A member stands at the start of a line, with any blanks before its name, line ends among
them. So what is found behind a place depends on the octets behind it and on only one
thing about those before it: whether the last one ends lines. `readFrom` has this as a
flag. It takes a place between CR and LF for the start of a line, which the pattern does
not, but finds the same, because the line feed is a blank and a line starts behind it.

So the style of the line ends does not matter to what is found. And an octet that can be
no part of a member ends every run of octets in front of it, and behind the line feed that
follows it a line starts, so a header may be read in pieces that are parted in this way.
-/
import GuestSync.Proofs.LineDecomposition
import GuestSync.Proofs.MemberScan

namespace GuestSync.Member

open Ascii
open LineEnds (octets)

/-! ## Reading with a flag -/

/-- The names and numbers of the members from a place on. A place is fresh at the start of
the text and behind each octet that ends lines. -/
def readFrom (fresh : Bool) (bs : Bytes) : List (Bytes × Bytes) :=
  match fresh, bs with
  | true, bs =>
    match _h : memberAt? bs with
    | some m => (m.name, m.numeral) :: readFrom false m.rest
    | none => readFrom false bs
  | false, [] => []
  | false, b :: r => readFrom (octets.isEnd b) r
termination_by (bs.length, fresh.toNat)
decreasing_by
  · obtain ⟨front, hbs, hword⟩ := memberAt?_eq_some _h
    have hpos := List.length_pos_of_ne_nil hword
    simp only [hbs, List.length_append, Prod.lex_def]
    omega
  · simp [Prod.lex_def]
  · simp [Prod.lex_def]

theorem readFrom_of_member {bs : Bytes} {m : Found} (h : memberAt? bs = some m) :
    readFrom true bs = (m.name, m.numeral) :: readFrom false m.rest := by
  rw [readFrom]
  split <;> simp_all

theorem readFrom_of_no_member {bs : Bytes} (h : memberAt? bs = none) :
    readFrom true bs = readFrom false bs := by
  rw [readFrom]
  split <;> simp_all

theorem readFrom_cons (b : UInt8) (r : Bytes) :
    readFrom false (b :: r) = readFrom (octets.isEnd b) r := by
  rw [readFrom]

/-- Blanks may stand in front of a member. -/
theorem memberAt?_space {b : UInt8} (h : isSpace b = true) (r : Bytes) :
    memberAt? (b :: r) = memberAt? r := by
  rw [memberAt?, List.dropWhile_cons_of_pos h]
  rfl

/-- Between CR and LF it makes no difference whether a line starts. -/
theorem readFrom_lineFeed (fresh : Bool) (r : Bytes) :
    readFrom fresh (lineFeed :: r) = readFrom true r := by
  have hblank := memberAt?_space (b := lineFeed) (by decide) r
  cases fresh with
  | false => exact readFrom_cons lineFeed r
  | true =>
    cases hm : memberAt? r with
    | some m => rw [readFrom_of_member (hblank.trans hm), readFrom_of_member hm]
    | none => exact (readFrom_of_no_member (hblank.trans hm)).trans (readFrom_cons lineFeed r)

/-! ## The reader and the pattern -/

/-- No line starts between CR and LF, but behind every other octet that ends lines. -/
theorem readFrom_startsLine (b : UInt8) (r : Bytes) :
    readFrom (startsLine (some b) r) r = readFrom (octets.isEnd b) r := by
  by_cases hpair : b = carriageReturn ∧ r.head? = some lineFeed
  · obtain ⟨r', rfl⟩ : ∃ r', r = lineFeed :: r' := List.head?_eq_some_iff.mp hpair.2
    rw [readFrom_lineFeed, readFrom_lineFeed]
  · have hstart : startsLine (some b) r = octets.isEnd b := by
      rw [Bool.eq_iff_iff, octets.isEnd_iff]
      simp only [startsLine, reduceCtorEq, Option.some_inj, false_or, decide_eq_true_eq]
      constructor
      · rintro (hlf | ⟨hcr, -⟩)
        · exact .inr hlf
        · exact .inl hcr
      · rintro (hcr | hlf)
        · exact .inr ⟨hcr, fun hhead => hpair ⟨hcr, hhead⟩⟩
        · exact .inl hlf
    rw [hstart]

/-- The word that a member ends with has word octets only. -/
theorem isWord_of_mem_word {bs : Bytes} {m : Found} (h : memberAt? bs = some m) :
    ∀ b ∈ m.word, isWord b = true := by
  unfold memberAt? at h
  dsimp only at h
  split at h
  · simp at h
  · rw [Option.ite_none_right_eq_some, Option.map_eq_some_iff] at h
    obtain ⟨-, n, -, rfl⟩ := h
    exact fun b hb => List.mem_takeWhile_imp hb

/-- No line starts behind a member. -/
theorem startsLine_behind {bs : Bytes} {m : Found} (h : memberAt? bs = some m) :
    startsLine m.word.getLast? m.rest = false := by
  have hends : ∀ b : UInt8, isWord b → b ≠ lineFeed ∧ b ≠ carriageReturn := by decide +kernel
  obtain ⟨-, -, hword⟩ := memberAt?_eq_some h
  obtain ⟨b, hb⟩ := Option.ne_none_iff_exists'.mp (mt List.getLast?_eq_none_iff.mp hword)
  have hb' := hends b (isWord_of_mem_word h b (List.mem_of_getLast? hb))
  simp [hb, startsLine, hb']

/-- The scanner and the reader find the same. -/
theorem scanFrom_eq_readFrom (before : Option UInt8) (bs : Bytes) :
    scanFrom before bs = readFrom (startsLine before bs) bs := by
  fun_induction scanFrom before bs with
  | case1 before =>
    cases startsLine before [] with
    | false => rw [readFrom]
    | true => rw [readFrom_of_no_member memberAt?_nil, readFrom]
  | case2 before b r m hm ih =>
    unfold memberHere? at hm
    split at hm
    · next hstart => rw [hstart, readFrom_of_member hm, ih, startsLine_behind hm]
    · simp at hm
  | case3 before b r hm ih =>
    rw [ih, readFrom_startsLine, ← readFrom_cons]
    cases hstart : startsLine before (b :: r) with
    | false => rfl
    | true =>
      rw [memberHere?, if_pos hstart] at hm
      rw [readFrom_of_no_member hm]

theorem literals_eq_readFrom (header : Bytes) : literals header = readFrom true header :=
  (matchesFrom_eq_scanFrom none header).trans (scanFrom_eq_readFrom none header)

/-! ## Styles of line ends -/

/-- The second text is the first with any line end in the place of each line feed. -/
inductive Restyled : Bytes → Bytes → Prop
  | nil : Restyled [] []
  | octet {b : UInt8} {r r' : Bytes} (h : b ≠ lineFeed) :
      Restyled r r' → Restyled (b :: r) (b :: r')
  | lineEnd (t : Lines.Terminator) {r r' : Bytes} :
      Restyled r r' → Restyled (lineFeed :: r) (t.symbols octets ++ r')

/-- Members with the same name and the same number, and what follows them is the same but
for the style of its line ends. -/
structure Found.Alike (m m' : Found) : Prop where
  name : m'.name = m.name
  numeral : m'.numeral = m.numeral
  rest : Restyled m.rest m'.rest

namespace Restyled

variable {d d' : Bytes}

/-- Line ends are blanks in every style. -/
theorem dropWhile_isSpace (h : Restyled d d') :
    Restyled (d.dropWhile isSpace) (d'.dropWhile isSpace) := by
  induction h with
  | nil => exact .nil
  | @octet b r r' hb h ih =>
    by_cases hspace : isSpace b = true
    · rwa [List.dropWhile_cons_of_pos hspace, List.dropWhile_cons_of_pos hspace]
    · rw [List.dropWhile_cons_of_neg hspace, List.dropWhile_cons_of_neg hspace]
      exact .octet hb h
  | lineEnd t h ih => cases t <;> exact ih

/-- Line ends are no word octets in any style. -/
theorem takeWhile_isWord (h : Restyled d d') :
    d'.takeWhile isWord = d.takeWhile isWord ∧
      Restyled (d.dropWhile isWord) (d'.dropWhile isWord) := by
  induction h with
  | nil => exact ⟨rfl, .nil⟩
  | @octet b r r' hb h ih =>
    by_cases hword : isWord b = true
    · simpa [hword] using ih
    · simpa [hword] using octet hb h
  | lineEnd t h ih =>
    have hstop : ∀ r, (t.symbols octets ++ r).takeWhile isWord = [] ∧
        (t.symbols octets ++ r).dropWhile isWord = t.symbols octets ++ r := by
      intro r
      cases t <;> exact ⟨rfl, rfl⟩
    rw [(hstop _).1, (hstop _).2]
    exact ⟨rfl, .lineEnd t h⟩

/-- A member in front is there in every style. -/
theorem memberAt? (h : Restyled d d') :
    Option.Rel Found.Alike (Member.memberAt? d) (Member.memberAt? d') := by
  obtain ⟨hname, hbehind⟩ := h.dropWhile_isSpace.takeWhile_isWord
  have hsign := hbehind.dropWhile_isSpace
  unfold Member.memberAt?
  dsimp only
  rw [hname]
  generalize ((d.dropWhile isSpace).dropWhile isWord).dropWhile isSpace = x at hsign
  generalize ((d'.dropWhile isSpace).dropWhile isWord).dropWhile isSpace = x' at hsign
  cases hsign with
  | nil => exact .none
  | @octet b r r' hb hr =>
    obtain ⟨hword, hrest⟩ := hr.dropWhile_isSpace.takeWhile_isWord
    dsimp only
    rw [hword]
    split
    · cases numeralOf? ((r.dropWhile isSpace).takeWhile isWord) with
      | none => exact .none
      | some n => exact .some ⟨rfl, rfl, hrest⟩
    · exact .none
  | lineEnd t hr =>
    -- A line end is no equals sign.
    obtain ⟨b, bs, hb, hsign⟩ : ∃ b bs, t.symbols octets = b :: bs ∧ b ≠ 0x3D := by
      cases t <;> exact ⟨_, _, rfl, by decide⟩
    rw [hb]
    dsimp only [List.cons_append]
    rw [if_neg (by simp [lineFeed]), if_neg (by simp [hsign])]
    exact .none

theorem member (h : Restyled d d') {m : Found} (hm : Member.memberAt? d = some m) :
    ∃ m', Member.memberAt? d' = some m' ∧ m.Alike m' := by
  have hrel := h.memberAt?
  rw [hm] at hrel
  cases hm' : Member.memberAt? d' with
  | none => simp [hm'] at hrel
  | some m' => exact ⟨m', rfl, by simpa [hm'] using hrel⟩

theorem no_member (h : Restyled d d') (hm : Member.memberAt? d = none) :
    Member.memberAt? d' = none := by
  have hrel := h.memberAt?
  rw [hm] at hrel
  cases hm' : Member.memberAt? d' with
  | none => rfl
  | some m' => simp [hm'] at hrel

/-- Every line end makes the place behind it fresh. -/
theorem readFrom_lineEnd (t : Lines.Terminator) (r : Bytes) :
    Member.readFrom false (t.symbols octets ++ r) = Member.readFrom true r := by
  cases t with
  | pair => exact (readFrom_cons carriageReturn _).trans (readFrom_lineFeed true r)
  | carriageReturn => exact readFrom_cons carriageReturn r
  | lineFeed => exact readFrom_cons lineFeed r

/-- The same members are found in every style. -/
theorem readFrom (h : Restyled d d') (fresh : Bool) :
    Member.readFrom fresh d' = Member.readFrom fresh d := by
  fun_induction Member.readFrom fresh d generalizing d' with
  | case1 d m hm ih =>
    obtain ⟨m', hm', halike⟩ := h.member hm
    rw [readFrom_of_member hm', halike.name, halike.numeral, ih halike.rest]
  | case2 d hm ih => rw [readFrom_of_no_member (h.no_member hm), ih h]
  | case3 =>
    cases h
    rw [Member.readFrom]
  | case4 b r ih =>
    cases h with
    | octet hb hr => rw [readFrom_cons, ih hr]
    | lineEnd t hr =>
      rw [readFrom_lineEnd]
      exact ih hr

end Restyled

/-- **The style of line ends does not matter.** Where each line feed of a header may have
become a line feed, a carriage return or both, each on its own, the members are the same
ones in the same order, or the same literal is too large. -/
theorem listOf_restyled {d d' : Bytes} (h : Restyled d d') : listOf d' = listOf d := by
  rw [listOf, listOf, literals_eq_readFrom, literals_eq_readFrom, h.readFrom]

/-- Two line feeds, of which one becomes a carriage return, so that the two are one line end. -/
theorem listOf_restyled_sample :
    Restyled (Utf8.ofString "a=1\n\nb=2") (Utf8.ofString "a=1\r\nb=2") ∧
      listOf (Utf8.ofString "a=1\r\nb=2") = .ok [⟨"a", 1⟩, ⟨"b", 2⟩] := by
  have hb : Restyled (Utf8.ofString "b=2") (Utf8.ofString "b=2") :=
    .octet (by decide) (.octet (by decide) (.octet (by decide) .nil))
  have hends : Restyled (Utf8.ofString "\n\nb=2") (Utf8.ofString "\r\nb=2") :=
    .lineEnd .carriageReturn (.lineEnd .lineFeed hb)
  have h : Restyled (Utf8.ofString "a=1\n\nb=2") (Utf8.ofString "a=1\r\nb=2") :=
    .octet (by decide) (.octet (by decide) (.octet (by decide) hends))
  exact ⟨h, (listOf_restyled h).trans (by decide +kernel)⟩

/-! ## Pieces of a text -/

section Seam

variable {c : UInt8}

theorem takeWhile_seam {holds : UInt8 → Bool} (h : holds c = false) (a t : Bytes) :
    (a ++ c :: t).takeWhile holds = a.takeWhile holds := by
  induction a with
  | nil => simp [h]
  | cons b a ih => by_cases hb : holds b <;> simp [hb, ih]

theorem dropWhile_seam {holds : UInt8 → Bool} (h : holds c = false) (a t : Bytes) :
    (a ++ c :: t).dropWhile holds = a.dropWhile holds ++ c :: t := by
  induction a with
  | nil => simp [h]
  | cons b a ih => by_cases hb : holds b <;> simp [hb, ih]

variable (hword : isWord c = false) (hspace : isSpace c = false) (hsign : c ≠ 0x3D)

include hword hspace hsign

/-- No member reaches over the octet. -/
theorem memberAt?_seam (a t : Bytes) :
    memberAt? (a ++ c :: t) =
      (memberAt? a).map fun m => { m with rest := m.rest ++ c :: t } := by
  unfold memberAt?
  simp only [dropWhile_seam hspace, dropWhile_seam hword, takeWhile_seam hword]
  cases ((a.dropWhile isSpace).dropWhile isWord).dropWhile isSpace with
  | nil => simp [hsign]
  | cons b r =>
    simp only [List.cons_append, dropWhile_seam hspace, dropWhile_seam hword,
      takeWhile_seam hword]
    split
    · simp [Option.map_map, Function.comp_def]
    · rfl

/-- What is found in two pieces with a seam between them. -/
theorem readFrom_seam (a b : Bytes) (fresh : Bool) :
    readFrom fresh (a ++ c :: lineFeed :: b) = readFrom fresh a ++ readFrom true b := by
  have hend : octets.isEnd c = false := by
    by_contra hend
    rcases octets.isEnd_iff.mp (by simpa using hend) with rfl | rfl
    · exact absurd hspace (by decide)
    · exact absurd hspace (by decide)
  fun_induction readFrom fresh a with
  | case1 a m hm ih =>
    rw [readFrom_of_member (by rw [memberAt?_seam hword hspace hsign, hm, Option.map_some]), ih]
    rfl
  | case2 a hm ih =>
    rw [readFrom_of_no_member (by rw [memberAt?_seam hword hspace hsign, hm, Option.map_none]), ih]
  | case3 => rw [List.nil_append, readFrom_cons, hend, readFrom_lineFeed, List.nil_append]
  | case4 x r ih => rw [List.cons_append, readFrom_cons, ih]

theorem literals_seam (a b : Bytes) :
    literals (a ++ c :: lineFeed :: b) = literals a ++ literals b := by
  simp only [literals_eq_readFrom, readFrom_seam hword hspace hsign]

end Seam

/-- **A header may be read in pieces.** Between two pieces stands an octet that can be no part
of a member, with a line feed behind it. Then the members are those of the first piece and
those of the second, and if a literal is too large, it is the first such one. -/
theorem listOf_seam {c : UInt8} (hword : isWord c = false) (hspace : isSpace c = false)
    (hsign : c ≠ 0x3D) (a b : Bytes) :
    listOf (a ++ [c, lineFeed] ++ b) =
      match listOf a, listOf b with
      | .error f, _ => .error f
      | .ok _, .error f => .error f
      | .ok first, .ok second => .ok (first ++ second) := by
  have hpieces : literals (a ++ [c, lineFeed] ++ b) = literals a ++ literals b := by
    simpa using literals_seam hword hspace hsign a b
  rw [listOf, hpieces, List.mapM_append, ← listOf, ← listOf]
  cases listOf a with
  | error f => rfl
  | ok first => cases listOf b <;> rfl

/-- A comma, with what could have been a member but for it on both sides. -/
theorem listOf_seam_sample :
    listOf (Utf8.ofString "a = 1\nb =" ++ [0x2C, 0x0A] ++ Utf8.ofString "2\nc = 0x10UL\n") =
      .ok [⟨"a", 1⟩, ⟨"c", 16⟩] := by
  have ha : listOf (Utf8.ofString "a = 1\nb =") = .ok [⟨"a", 1⟩] := by decide +kernel
  have hb : listOf (Utf8.ofString "2\nc = 0x10UL\n") = .ok [⟨"c", 16⟩] := by decide +kernel
  have hseam := listOf_seam (by decide : isWord 0x2C = false) (by decide) (by decide)
    (Utf8.ofString "a = 1\nb =") (Utf8.ofString "2\nc = 0x10UL\n")
  rwa [ha, hb] at hseam

end GuestSync.Member
