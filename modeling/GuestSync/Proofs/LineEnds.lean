/-
# GuestSync.Proofs.LineEnds -- line ends in texts and in octets

A line ends at a carriage return with a line feed behind it, at a lone carriage
return or at a lone line feed. That is the same rule for the characters of a text
and for the octets of a content, so it is stated once for any alphabet with two
such symbols: `uniform` puts one symbol in the place of every line end, and
`terminated` also ends the last line. An encoding that keeps the two symbols apart
from all others carries the one over to the other; UTF-8 and Mac Roman are such.
-/
import GuestSync.Text.MacRoman
import GuestSync.Proofs.Utf8RoundTrip

namespace GuestSync

/-- The two symbols that end lines, each alone or both in this order. -/
structure LineEnds (α : Type) where
  carriageReturn : α
  lineFeed : α
  distinct : carriageReturn ≠ lineFeed

namespace LineEnds

/-- The line ends of a text. -/
def chars : LineEnds Char := ⟨'\r', '\n', by decide⟩

/-- The line ends of a content. -/
def octets : LineEnds UInt8 := ⟨Ascii.carriageReturn, Ascii.lineFeed, by decide⟩

section Alphabet

variable {α : Type} [DecidableEq α] (ends : LineEnds α) (e : α)

/-- Whether a symbol ends a line. -/
def isEnd (a : α) : Bool := a == ends.carriageReturn || a == ends.lineFeed

/-- The text with `e` in the place of each line end. -/
def uniform : List α → List α
  | [] => []
  | [a] => [if ends.isEnd a then e else a]
  | a :: b :: r =>
    if a = ends.carriageReturn ∧ b = ends.lineFeed then e :: uniform r
    else (if ends.isEnd a then e else a) :: uniform (b :: r)

/-- What is missing behind a text: `e`, unless the text is empty or ends in a line
end. -/
def lastEnd (text : List α) : List α := if text.getLast?.all ends.isEnd then [] else [e]

/-- The text with `e` in the place of each line end and behind its last line, if that
has no end. -/
def terminated (text : List α) : List α := ends.uniform e text ++ ends.lastEnd e text

/-! ## What a text starts with -/

theorem isEnd_iff {a : α} :
    ends.isEnd a = true ↔ a = ends.carriageReturn ∨ a = ends.lineFeed := by
  simp [isEnd]

theorem isEnd_carriageReturn : ends.isEnd ends.carriageReturn = true := by simp [isEnd]

theorem isEnd_lineFeed : ends.isEnd ends.lineFeed = true := by simp [isEnd]

/-- Whether a line end of two symbols starts here. -/
def IsPair (a : α) (r : List α) : Prop := a = ends.carriageReturn ∧ r.head? = some ends.lineFeed

theorem uniform_pair (r : List α) :
    ends.uniform e (ends.carriageReturn :: ends.lineFeed :: r) = e :: ends.uniform e r := by
  simp [uniform]

theorem uniform_cons {a : α} {r : List α} (h : ¬ ends.IsPair a r) :
    ends.uniform e (a :: r) = (if ends.isEnd a then e else a) :: ends.uniform e r := by
  cases r with
  | nil => rfl
  | cons b r => rw [uniform, if_neg (by simpa [IsPair] using h)]

theorem lastEnd_cons {a : α} {r : List α} (h : ends.isEnd a = true ∨ r ≠ []) :
    ends.lastEnd e (a :: r) = ends.lastEnd e r := by
  cases r with
  | nil => simp [lastEnd, h.resolve_right (by simp)]
  | cons b r => simp [lastEnd]

theorem terminated_pair (r : List α) :
    ends.terminated e (ends.carriageReturn :: ends.lineFeed :: r) = e :: ends.terminated e r := by
  rw [terminated, uniform_pair, lastEnd_cons _ _ (.inr (by simp)),
    lastEnd_cons _ _ (.inl ends.isEnd_lineFeed)]
  rfl

theorem terminated_end {a : α} {r : List α} (ha : ends.isEnd a = true) (h : ¬ ends.IsPair a r) :
    ends.terminated e (a :: r) = e :: ends.terminated e r := by
  rw [terminated, uniform_cons _ _ h, if_pos ha, lastEnd_cons _ _ (.inl ha)]
  rfl

theorem terminated_cons {a : α} {r : List α} (ha : ends.isEnd a = false) (hr : r ≠ []) :
    ends.terminated e (a :: r) = a :: ends.terminated e r := by
  have h : ¬ ends.IsPair a r := by
    rintro ⟨rfl, -⟩
    simp [isEnd_carriageReturn] at ha
  rw [terminated, uniform_cons _ _ h, ha, lastEnd_cons _ _ (.inr hr)]
  rfl

theorem terminated_last {a : α} (ha : ends.isEnd a = false) : ends.terminated e [a] = [a, e] := by
  simp [terminated, uniform, lastEnd, ha]

/-- The cases of a text by what it starts with. -/
theorem text_cases {P : List α → Prop} (nil : P [])
    (pair : ∀ r, P r → P (ends.carriageReturn :: ends.lineFeed :: r))
    (cons : ∀ a r, ¬ ends.IsPair a r → P r → P (a :: r)) : ∀ text, P text
  | [] => nil
  | [a] => cons a [] (by simp [IsPair]) nil
  | a :: b :: r => by
    by_cases h : a = ends.carriageReturn ∧ b = ends.lineFeed
    · obtain ⟨rfl, rfl⟩ := h
      exact pair r (text_cases nil pair cons r)
    · exact cons a (b :: r) (by simpa [IsPair] using h) (text_cases nil pair cons (b :: r))

variable {ends e}

/-- In a text without the other line end `e` is in the place of each line end already. -/
theorem uniform_eq_self {text : List α} (h : ∀ a ∈ text, ends.isEnd a = true → a = e) :
    ends.uniform e text = text := by
  induction text using ends.text_cases with
  | nil => rfl
  | pair r ih =>
    -- Both symbols would have to be `e`.
    have hcr := h ends.carriageReturn (by simp) ends.isEnd_carriageReturn
    have hlf := h ends.lineFeed (by simp) ends.isEnd_lineFeed
    exact absurd (hcr.trans hlf.symm) ends.distinct
  | cons a r hpair ih =>
    rw [uniform_cons _ _ hpair, ih fun b hb => h b (by simp [hb])]
    by_cases ha : ends.isEnd a = true
    · rw [if_pos ha, h a (by simp) ha]
    · rw [if_neg ha]

private theorem terminated_eq_self {text : List α} (h : ∀ a ∈ text, ends.isEnd a = true → a = e)
    (he : ends.isEnd e = true) (hlast : text = [] ∨ text.getLast? = some e) :
    ends.terminated e text = text := by
  have hnone : ends.lastEnd e text = [] := by
    rcases hlast with rfl | hlast
    · rfl
    · simp [lastEnd, hlast, he]
  rw [terminated, uniform_eq_self h, hnone, List.append_nil]

theorem terminated_lineFeed_eq_self {text : List α} (hcr : ends.carriageReturn ∉ text)
    (hlast : text = [] ∨ text.getLast? = some ends.lineFeed) :
    ends.terminated ends.lineFeed text = text := by
  refine terminated_eq_self ?_ ends.isEnd_lineFeed hlast
  intro a ha hend
  refine (ends.isEnd_iff.mp hend).resolve_left ?_
  rintro rfl
  exact hcr ha

theorem terminated_carriageReturn_eq_self {text : List α} (hlf : ends.lineFeed ∉ text)
    (hlast : text = [] ∨ text.getLast? = some ends.carriageReturn) :
    ends.terminated ends.carriageReturn text = text := by
  refine terminated_eq_self ?_ ends.isEnd_carriageReturn hlast
  intro a ha hend
  refine (ends.isEnd_iff.mp hend).resolve_right ?_
  rintro rfl
  exact hlf ha

/-- What comes before the first line end stays as it is. -/
theorem uniform_append {xs : List α} (h : ∀ a ∈ xs, ends.isEnd a = false) (r : List α) :
    ends.uniform e (xs ++ r) = xs ++ ends.uniform e r := by
  induction xs with
  | nil => rfl
  | cons a xs ih =>
    have ha : ends.isEnd a = false := h a (by simp)
    have hpair : ¬ ends.IsPair a (xs ++ r) := by
      rintro ⟨rfl, -⟩
      simp [isEnd_carriageReturn] at ha
    rw [List.cons_append, uniform_cons _ _ hpair, ih fun b hb => h b (by simp [hb]), ha]
    rfl

end Alphabet

/-! ## From one alphabet to another -/

/-- Each symbol is written as some symbols of another alphabet, the line ends as the line
ends there, and no line end in anything else. -/
structure Carried {α β : Type} [DecidableEq α] [DecidableEq β] (ends : LineEnds α)
    (ends' : LineEnds β) (write : α → List β) : Prop where
  carriageReturn : write ends.carriageReturn = [ends'.carriageReturn]
  lineFeed : write ends.lineFeed = [ends'.lineFeed]
  nonempty : ∀ a, write a ≠ []
  other : ∀ a, ends.isEnd a = false → ∀ b ∈ write a, ends'.isEnd b = false

namespace Carried

variable {α β : Type} [DecidableEq α] [DecidableEq β] {ends : LineEnds α} {ends' : LineEnds β}
variable {write : α → List β}

/-- A line end is written as one symbol that is a line end. -/
theorem write_end (h : Carried ends ends' write) {a : α} (ha : ends.isEnd a = true) :
    ∃ b, write a = [b] ∧ ends'.isEnd b = true := by
  rcases ends.isEnd_iff.mp ha with rfl | rfl
  · exact ⟨_, h.carriageReturn, ends'.isEnd_carriageReturn⟩
  · exact ⟨_, h.lineFeed, ends'.isEnd_lineFeed⟩

/-- Only a line feed is written as something that starts with one. -/
theorem head?_write (h : Carried ends ends' write) {r : List α}
    (hhead : (r.flatMap write).head? = some ends'.lineFeed) : r.head? = some ends.lineFeed := by
  cases r with
  | nil => simp at hhead
  | cons a r =>
    obtain ⟨b, bs, hb⟩ := List.exists_cons_of_ne_nil (h.nonempty a)
    obtain rfl : b = ends'.lineFeed := by simpa [hb] using hhead
    have hend : ends.isEnd a = true := by
      by_contra hno
      have hb' := h.other a (by simpa using hno) ends'.lineFeed (by simp [hb])
      simp [isEnd_lineFeed] at hb'
    rcases ends.isEnd_iff.mp hend with rfl | rfl
    · rw [h.carriageReturn] at hb
      exact absurd (List.cons.inj hb).1 ends'.distinct
    · rfl

theorem flatMap_eq_nil (h : Carried ends ends' write) {text : List α} :
    text.flatMap write = [] ↔ text = [] := by
  cases text with
  | nil => simp
  | cons a r => simp [h.nonempty a]

/-- The two line ends stay apart. -/
theorem write_end_injective (h : Carried ends ends' write) {a e : α} (ha : ends.isEnd a = true)
    (he : ends.isEnd e = true) (hwrite : write a = write e) : a = e := by
  rcases ends.isEnd_iff.mp ha with rfl | rfl <;> rcases ends.isEnd_iff.mp he with rfl | rfl
  · rfl
  · rw [h.carriageReturn, h.lineFeed] at hwrite
    exact absurd (List.singleton_inj.mp hwrite) ends'.distinct
  · rw [h.carriageReturn, h.lineFeed] at hwrite
    exact absurd (List.singleton_inj.mp hwrite).symm ends'.distinct
  · rfl

/-- The symbol that a line end is written as stands for that line end only. -/
theorem mem_write_iff (h : Carried ends ends' write) {e : α} {e' : β} (hend : ends.isEnd e = true)
    (he : write e = [e']) {a : α} : e' ∈ write a ↔ a = e := by
  constructor
  · intro hmem
    by_cases ha : ends.isEnd a = true
    · obtain ⟨b, hb, -⟩ := h.write_end ha
      obtain rfl : e' = b := by simpa [hb] using hmem
      exact h.write_end_injective ha hend (hb.trans he.symm)
    · obtain ⟨b, hb, hend'⟩ := h.write_end hend
      obtain rfl : e' = b := by simpa [he] using hb
      simp [h.other a (by simpa using ha) e' hmem] at hend'
  · rintro rfl
    simp [he]

/-- There are as many line ends of a kind as before. -/
theorem count (h : Carried ends ends' write) {e : α} {e' : β} (hend : ends.isEnd e = true)
    (he : write e = [e']) (text : List α) : (text.flatMap write).count e' = text.count e := by
  induction text with
  | nil => rfl
  | cons a r ih =>
    rw [List.flatMap_cons, List.count_append, ih, List.count_cons]
    by_cases ha : a = e
    · simp [ha, he, Nat.add_comm]
    · have hzero : (write a).count e' = 0 := by
        rw [List.count_eq_zero, h.mem_write_iff hend he]
        exact ha
      simp [hzero, ha]

/-- What ends in a line end is written with that line end at the end, and nothing else is. -/
theorem getLast?_flatMap_iff (h : Carried ends ends' write) {e : α} {e' : β}
    (hend : ends.isEnd e = true) (he : write e = [e']) (text : List α) :
    (text.flatMap write).getLast? = some e' ↔ text.getLast? = some e := by
  rcases List.eq_nil_or_concat text with rfl | ⟨init, a, rfl⟩
  · simp
  · have hlast : ((init.concat a).flatMap write).getLast? = (write a).getLast? := by
      simp [List.flatMap_append, List.getLast?_append_of_ne_nil _ (h.nonempty a)]
    rw [hlast, List.concat_eq_append, List.getLast?_concat, Option.some_inj]
    constructor
    · intro hmem
      exact (h.mem_write_iff hend he).mp (List.mem_of_getLast? hmem)
    · rintro rfl
      simp [he]

theorem uniform (h : Carried ends ends' write) {e : α} {e' : β} (he : write e = [e'])
    (text : List α) :
    ends'.uniform e' (text.flatMap write) = (ends.uniform e text).flatMap write := by
  induction text using ends.text_cases with
  | nil => rfl
  | pair r ih =>
    rw [uniform_pair, List.flatMap_cons, List.flatMap_cons, List.flatMap_cons, h.carriageReturn,
      h.lineFeed, he, List.singleton_append, List.singleton_append, uniform_pair, ih]
    rfl
  | cons a r hpair ih =>
    rw [uniform_cons _ _ hpair, List.flatMap_cons, List.flatMap_cons, ← ih]
    by_cases ha : ends.isEnd a = true
    · obtain ⟨b, hb, hend⟩ := h.write_end ha
      have hpair' : ¬ ends'.IsPair b (r.flatMap write) := by
        rintro ⟨rfl, hhead⟩
        refine hpair ⟨?_, h.head?_write hhead⟩
        rcases ends.isEnd_iff.mp ha with rfl | rfl
        · rfl
        · rw [h.lineFeed] at hb
          exact absurd (List.cons.inj hb).1.symm ends'.distinct
      rw [if_pos ha, he, hb, List.singleton_append, uniform_cons _ _ hpair', if_pos hend]
      rfl
    · rw [if_neg ha, uniform_append (h.other a (by simpa using ha))]

theorem lastEnd (h : Carried ends ends' write) {e : α} {e' : β} (he : write e = [e'])
    (text : List α) :
    ends'.lastEnd e' (text.flatMap write) = (ends.lastEnd e text).flatMap write := by
  rcases List.eq_nil_or_concat text with rfl | ⟨init, a, rfl⟩
  · rfl
  · obtain ⟨b, hb⟩ := Option.ne_none_iff_exists'.mp (mt List.getLast?_eq_none_iff.mp (h.nonempty a))
    have hend : ends'.isEnd b = ends.isEnd a := by
      cases ha : ends.isEnd a with
      | false => exact h.other a ha b (List.mem_of_getLast? hb)
      | true =>
        obtain ⟨c, hc, hend⟩ := h.write_end ha
        obtain rfl : c = b := by simpa [hc] using hb
        exact hend
    have hlast : ((init.concat a).flatMap write).getLast? = some b := by
      simp [List.flatMap_append, List.getLast?_append, hb]
    rw [LineEnds.lastEnd, LineEnds.lastEnd, hlast, List.concat_eq_append, List.getLast?_concat,
      Option.all_some, Option.all_some, hend]
    split <;> simp [he]

/-- **Line ends carry over.** What is written of a text with its line ends made uniform is
what was written of the text with the line ends made uniform there. -/
theorem terminated (h : Carried ends ends' write) {e : α} {e' : β} (he : write e = [e'])
    (text : List α) :
    ends'.terminated e' (text.flatMap write) = (ends.terminated e text).flatMap write := by
  rw [LineEnds.terminated, LineEnds.terminated, h.uniform he, h.lastEnd he, List.flatMap_append]

end Carried

end LineEnds

/-! ## UTF-8 -/

namespace Utf8

/-- An octet of a character is the character's number, or it is not ASCII. -/
theorem toNat_of_mem_encodeChar {c : Char} {b : UInt8} (h : b ∈ encodeChar c) :
    b.toNat = c.toNat ∨ 0x80 ≤ b.toNat := by
  have hvalid := toNat_valid c
  unfold encodeChar at h
  dsimp only at h
  generalize c.toNat = n at h hvalid
  have hhigh : ∀ k, 0x80 ≤ k → k < 0x100 → 0x80 ≤ (UInt8.ofNat k).toNat := by
    intro k hlow hlt
    rwa [toNat_octet hlt]
  split_ifs at h with h1 h2 h3
  · obtain rfl := List.mem_singleton.mp h
    exact .inl (toNat_octet (by omega))
  all_goals
    right
    simp only [List.mem_cons, List.not_mem_nil, or_false] at h
    rcases h with rfl | h
    · exact hhigh _ (by omega) (by omega)
  · obtain rfl := h
    exact hhigh _ (by omega) (by omega)
  · rcases h with rfl | rfl <;> exact hhigh _ (by omega) (by omega)
  · rcases h with rfl | rfl | rfl <;> exact hhigh _ (by omega) (by omega)

/-- Only a line end has an octet that ends lines. -/
theorem isEnd_of_mem_encodeChar {c : Char} (hc : LineEnds.chars.isEnd c = false) :
    ∀ b ∈ encodeChar c, LineEnds.octets.isEnd b = false := by
  intro b hb
  have hnumber := toNat_of_mem_encodeChar hb
  by_contra hend
  have hchar : c.toNat = '\r'.toNat ∨ c.toNat = '\n'.toNat := by
    rcases LineEnds.octets.isEnd_iff.mp (by simpa using hend) with rfl | rfl
    · exact .inl (hnumber.resolve_right (by decide)).symm
    · exact .inr (hnumber.resolve_right (by decide)).symm
  have hisEnd : LineEnds.chars.isEnd c = true :=
    LineEnds.chars.isEnd_iff.mpr (hchar.imp Char.toNat_inj.mp Char.toNat_inj.mp)
  simp [hc] at hisEnd

/-- UTF-8 keeps line ends. -/
theorem carried_lineEnds : LineEnds.chars.Carried LineEnds.octets encodeChar where
  carriageReturn := by decide
  lineFeed := by decide
  nonempty := by
    intro c
    unfold encodeChar
    dsimp only
    split_ifs <;> simp
  other := fun _ => isEnd_of_mem_encodeChar

theorem encode_terminated (text : List Char) :
    encode (LineEnds.chars.terminated '\n' text) =
      LineEnds.octets.terminated Ascii.lineFeed (encode text) :=
  (carried_lineEnds.terminated (by decide) text).symm

end Utf8

/-! ## Mac Roman -/

namespace MacRoman

/-- Each octet is the one that its character is written as. -/
theorem encodeChar_decodeByte (b : UInt8) : encodeChar (decodeByte b) = some b := by
  have hall : ∀ n < 256, encodeChar (decodeByte (UInt8.ofNat n)) = some (UInt8.ofNat n) := by
    decide +kernel
  have hb := hall b.toNat b.toNat_lt
  rwa [UInt8.ofNat_toNat] at hb

theorem decodeByte_injective : Function.Injective decodeByte := by
  intro a b h
  have hab := encodeChar_decodeByte a
  rw [h, encodeChar_decodeByte] at hab
  exact (Option.some.inj hab).symm

/-- Every octet string is written again as it was read. -/
theorem encode_decode (bs : Bytes) : encode (decode bs) = some bs := by
  induction bs with
  | nil => rfl
  | cons b r ih =>
    rw [decode, List.map_cons, encode, List.mapM_cons, encodeChar_decodeByte]
    rw [decode, encode] at ih
    simp [ih]

/-- Mac Roman keeps line ends. -/
theorem carried_lineEnds :
    LineEnds.octets.Carried LineEnds.chars (fun b => [decodeByte b]) where
  carriageReturn := by decide
  lineFeed := by decide
  nonempty := by simp
  other := by
    intro b hb c hc
    obtain rfl : c = decodeByte b := by simpa using hc
    by_contra hend
    have hisEnd : LineEnds.octets.isEnd b = true := by
      apply LineEnds.octets.isEnd_iff.mpr
      exact (LineEnds.chars.isEnd_iff.mp (by simpa using hend)).imp
        (@decodeByte_injective b _) (@decodeByte_injective b _)
    simp [hb] at hisEnd

theorem decode_terminated (bs : Bytes) :
    decode (LineEnds.octets.terminated Ascii.carriageReturn bs) =
      LineEnds.chars.terminated '\r' (decode bs) := by
  have hread : ∀ xs, decode xs = xs.flatMap fun b => [decodeByte b] := fun _ => List.map_eq_flatMap
  rw [hread, hread]
  exact (carried_lineEnds.terminated (by decide) bs).symm

end MacRoman

end GuestSync
