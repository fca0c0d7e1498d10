/-
# GuestSync.Proofs.Utf8RoundTrip -- reading is the inverse of writing

What `encode` writes `decode` reads back, and what `decode` accepts is exactly
what `encode` writes. Both directions go one character at a time: the automaton
is taken through the octets of a character from its first octet, and the four
lengths of a character are the four cases throughout.
-/
import GuestSync.Text.Utf8
import Mathlib

namespace GuestSync.Utf8

/-! ## One octet -/

theorem toNat_char_ofNat {n : Nat} (h : n < 0xD800 ∨ 0xDFFF < n ∧ n < 0x110000) :
    (Char.ofNat n).toNat = n := by
  rw [Char.toNat_ofNat, if_pos]
  simpa [Nat.isValidChar] using h

theorem toNat_valid (c : Char) : c.toNat < 0xD800 ∨ 0xDFFF < c.toNat ∧ c.toNat < 0x110000 := by
  simpa [UInt32.isValidChar, Nat.isValidChar] using c.valid

theorem toNat_octet {n : Nat} (h : n < 0x100) : (UInt8.ofNat n).toNat = n := by
  rw [UInt8.toNat_ofNat']
  omega

theorem octet_toNat (b : UInt8) {n : Nat} (h : n = b.toNat) : UInt8.ofNat n = b := by
  rw [h, UInt8.ofNat_toNat]

/-- The value of a character grows by six bits with each further octet. -/
abbrev next (value : Nat) (b : UInt8) : Nat := value * 0x40 + (b.toNat - 0x80)

theorem decodeFrom_ascii {b : UInt8} (h : b.toNat < 0x80) (r : Bytes) :
    decodeFrom .ready (b :: r) = (decodeFrom .ready r).map (Char.ofNat b.toNat :: ·) := by
  have hb : b < 0x80 := UInt8.lt_iff_toNat_lt.mpr h
  simp [decodeFrom, feed, hb]

theorem decodeFrom_lead {b : UInt8} {s : State} (h : ¬ b.toNat < 0x80) (hs : lead b = some s)
    (r : Bytes) : decodeFrom .ready (b :: r) = decodeFrom s r := by
  have hb : ¬ b < 0x80 := fun hlt => h (UInt8.lt_iff_toNat_lt.mp hlt)
  simp [decodeFrom, feed, hb, hs]

theorem decodeFrom_more {value more : Nat} {low high b : UInt8} (hlow : low.toNat ≤ b.toNat)
    (hhigh : b.toNat ≤ high.toNat) (r : Bytes) :
    decodeFrom (.within value low high (more + 1)) (b :: r) =
      decodeFrom (.within (next value b) 0x80 0xBF more) r := by
  have hl : low ≤ b := UInt8.le_iff_toNat_le.mpr hlow
  have hh : b ≤ high := UInt8.le_iff_toNat_le.mpr hhigh
  simp [decodeFrom, feed, hl, hh]

theorem decodeFrom_last {value : Nat} {low high b : UInt8} (hlow : low.toNat ≤ b.toNat)
    (hhigh : b.toNat ≤ high.toNat) (r : Bytes) :
    decodeFrom (.within value low high 0) (b :: r) =
      (decodeFrom .ready r).map (Char.ofNat (next value b) :: ·) := by
  have hl : low ≤ b := UInt8.le_iff_toNat_le.mpr hlow
  have hh : b ≤ high := UInt8.le_iff_toNat_le.mpr hhigh
  simp [decodeFrom, feed, hl, hh]

theorem lead_two {b : UInt8} (h : 0xC2 ≤ b.toNat ∧ b.toNat < 0xE0) :
    lead b = some (.within (b.toNat - 0xC0) 0x80 0xBF 0) := by
  have h1 : ¬ b < 0xC2 := UInt8.not_lt.mpr (UInt8.le_iff_toNat_le.mpr h.1)
  have h2 : b < 0xE0 := UInt8.lt_iff_toNat_lt.mpr h.2
  simp [lead, h1, h2]

/-- The octets that may follow the first of a character of three octets. -/
theorem lead_three {b : UInt8} (h : 0xE0 ≤ b.toNat ∧ b.toNat < 0xF0) :
    lead b = some (.within (b.toNat - 0xE0) (if b.toNat = 0xE0 then 0xA0 else 0x80)
      (if b.toNat = 0xED then 0x9F else 0xBF) 1) := by
  have h2 : ¬ b < 0xE0 := UInt8.not_lt.mpr (UInt8.le_iff_toNat_le.mpr h.1)
  have h1 : ¬ b < 0xC2 := by
    intro hlt
    exact h2 (UInt8.lt_trans hlt (by decide))
  have h3 : b < 0xF0 := UInt8.lt_iff_toNat_lt.mpr h.2
  -- The two first octets that narrow the second one are told apart.
  by_cases hE0 : b.toNat = 0xE0
  · obtain rfl : b = 0xE0 := UInt8.toNat_inj.mp hE0
    decide
  by_cases hED : b.toNat = 0xED
  · obtain rfl : b = 0xED := UInt8.toNat_inj.mp hED
    decide
  · have h4 : b ≠ 0xE0 := by
      rintro rfl
      exact hE0 rfl
    have h5 : b ≠ 0xED := by
      rintro rfl
      exact hED rfl
    simp [lead, h1, h2, h3, h4, h5, hE0, hED]

/-- The octets that may follow the first of a character of four octets. -/
theorem lead_four {b : UInt8} (h : 0xF0 ≤ b.toNat ∧ b.toNat < 0xF5) :
    lead b = some (.within (b.toNat - 0xF0) (if b.toNat = 0xF0 then 0x90 else 0x80)
      (if b.toNat = 0xF4 then 0x8F else 0xBF) 2) := by
  have hall : b = 0xF0 ∨ b = 0xF1 ∨ b = 0xF2 ∨ b = 0xF3 ∨ b = 0xF4 := by
    simp only [← UInt8.toNat_inj]
    simp
    omega
  rcases hall with rfl | rfl | rfl | rfl | rfl <;> decide

theorem lead_none {b : UInt8} (h : b.toNat < 0xC2 ∨ 0xF5 ≤ b.toNat) : lead b = none := by
  rcases h with h | h
  · have h1 : b < 0xC2 := UInt8.lt_iff_toNat_lt.mpr h
    simp [lead, h1]
  · have hall : ∀ k : UInt8, k.toNat < 0xF5 → ¬ b < k ∧ b ≠ k := by
      intro k hk
      refine ⟨?_, ?_⟩
      · intro hlt
        have hbk := UInt8.lt_iff_toNat_lt.mp hlt
        omega
      · rintro rfl
        omega
    simp [lead, hall]

/-! ## The bounds on the second octet -/

section Bounds

variable {p : Prop} [Decidable p] {x : UInt8} {n : Nat}

/-- A lower bound that the first octet may raise to `x`. -/
theorem low_le_iff (hx : 0x80 ≤ x.toNat) :
    (if p then x else 0x80).toNat ≤ n ↔ 0x80 ≤ n ∧ (p → x.toNat ≤ n) := by
  split
  · next hp =>
    show x.toNat ≤ n ↔ _
    exact ⟨fun h => ⟨hx.trans h, fun _ => h⟩, fun h => h.2 hp⟩
  · next hp =>
    show 0x80 ≤ n ↔ _
    exact ⟨fun h => ⟨h, fun h' => absurd h' hp⟩, fun h => h.1⟩

/-- An upper bound that the first octet may lower to `x`. -/
theorem le_high_iff (hx : x.toNat ≤ 0xBF) :
    n ≤ (if p then x else 0xBF).toNat ↔ n ≤ 0xBF ∧ (p → n ≤ x.toNat) := by
  split
  · next hp =>
    show n ≤ x.toNat ↔ _
    exact ⟨fun h => ⟨h.trans hx, fun _ => h⟩, fun h => h.2 hp⟩
  · next hp =>
    show n ≤ 0xBF ↔ _
    exact ⟨fun h => ⟨h, fun h' => absurd h' hp⟩, fun h => h.1⟩

end Bounds

/-! ## Reading what was written -/

section Writing

variable {value more m n : Nat} {low high : UInt8}

/-- The octet of six bits goes into the value. -/
theorem decodeFrom_more_octet (hm : m < 0x40) (hlow : low.toNat ≤ 0x80 + m)
    (hhigh : 0x80 + m ≤ high.toNat) (r : Bytes) :
    decodeFrom (.within value low high (more + 1)) (UInt8.ofNat (0x80 + m) :: r) =
      decodeFrom (.within (value * 0x40 + m) 0x80 0xBF more) r := by
  have hn : (UInt8.ofNat (0x80 + m)).toNat = 0x80 + m := toNat_octet (by omega)
  rw [decodeFrom_more (by rwa [hn]) (by rwa [hn]), next, hn, Nat.add_sub_cancel_left]

/-- The last octet of six bits completes the character. -/
theorem decodeFrom_last_octet (hm : m < 0x40) (hlow : low.toNat ≤ 0x80 + m)
    (hhigh : 0x80 + m ≤ high.toNat) (r : Bytes) :
    decodeFrom (.within value low high 0) (UInt8.ofNat (0x80 + m) :: r) =
      (decodeFrom .ready r).map (Char.ofNat (value * 0x40 + m) :: ·) := by
  have hn : (UInt8.ofNat (0x80 + m)).toNat = 0x80 + m := toNat_octet (by omega)
  rw [decodeFrom_last (by rwa [hn]) (by rwa [hn]), next, hn, Nat.add_sub_cancel_left]

/-- The bounds on an octet that the first one does not narrow. -/
theorem octet_bounds (hm : m < 0x40) :
    (0x80 : UInt8).toNat ≤ 0x80 + m ∧ 0x80 + m ≤ (0xBF : UInt8).toNat := by
  have h80 : (0x80 : UInt8).toNat = 0x80 := rfl
  have hBF : (0xBF : UInt8).toNat = 0xBF := rfl
  omega

theorem decodeFrom_two (hn : 0x80 ≤ n ∧ n < 0x800) (r : Bytes) :
    decodeFrom .ready (UInt8.ofNat (0xC0 + n / 0x40) :: UInt8.ofNat (0x80 + n % 0x40) :: r) =
      (decodeFrom .ready r).map (Char.ofNat n :: ·) := by
  have h0 : (UInt8.ofNat (0xC0 + n / 0x40)).toNat = 0xC0 + n / 0x40 := toNat_octet (by omega)
  have h1 : n % 0x40 < 0x40 := by omega
  have hvalue : (0xC0 + n / 0x40 - 0xC0) * 0x40 + n % 0x40 = n := by omega
  rw [decodeFrom_lead (by omega) (lead_two (by omega)), h0,
    decodeFrom_last_octet h1 (octet_bounds h1).1 (octet_bounds h1).2, hvalue]

theorem decodeFrom_three (hn : 0x800 ≤ n ∧ n < 0x10000) (hvalid : n < 0xD800 ∨ 0xDFFF < n)
    (r : Bytes) :
    decodeFrom .ready (UInt8.ofNat (0xE0 + n / 0x1000) :: UInt8.ofNat (0x80 + n / 0x40 % 0x40) ::
        UInt8.ofNat (0x80 + n % 0x40) :: r) =
      (decodeFrom .ready r).map (Char.ofNat n :: ·) := by
  have h0 : (UInt8.ofNat (0xE0 + n / 0x1000)).toNat = 0xE0 + n / 0x1000 := toNat_octet (by omega)
  have h1 : n / 0x40 % 0x40 < 0x40 := by omega
  have h2 : n % 0x40 < 0x40 := by omega
  have hvalue : ((0xE0 + n / 0x1000 - 0xE0) * 0x40 + n / 0x40 % 0x40) * 0x40 + n % 0x40 = n := by
    omega
  -- An overlong form would start below the lower bound, a surrogate above the upper one.
  have hA0 : (0xA0 : UInt8).toNat = 0xA0 := rfl
  have h9F : (0x9F : UInt8).toNat = 0x9F := rfl
  rw [decodeFrom_lead (by omega) (lead_three (by omega)), h0,
    decodeFrom_more_octet h1 ((low_le_iff (by decide)).mpr (by omega))
      ((le_high_iff (by decide)).mpr (by omega)),
    decodeFrom_last_octet h2 (octet_bounds h2).1 (octet_bounds h2).2, hvalue]

theorem decodeFrom_four (hn : 0x10000 ≤ n ∧ n < 0x110000) (r : Bytes) :
    decodeFrom .ready (UInt8.ofNat (0xF0 + n / 0x40000) :: UInt8.ofNat (0x80 + n / 0x1000 % 0x40) ::
        UInt8.ofNat (0x80 + n / 0x40 % 0x40) :: UInt8.ofNat (0x80 + n % 0x40) :: r) =
      (decodeFrom .ready r).map (Char.ofNat n :: ·) := by
  have h0 : (UInt8.ofNat (0xF0 + n / 0x40000)).toNat = 0xF0 + n / 0x40000 := toNat_octet (by omega)
  have h1 : n / 0x1000 % 0x40 < 0x40 := by omega
  have h2 : n / 0x40 % 0x40 < 0x40 := by omega
  have h3 : n % 0x40 < 0x40 := by omega
  have hvalue : (((0xF0 + n / 0x40000 - 0xF0) * 0x40 + n / 0x1000 % 0x40) * 0x40 +
      n / 0x40 % 0x40) * 0x40 + n % 0x40 = n := by omega
  -- An overlong form would start below the lower bound, a value too large above the upper one.
  have h90 : (0x90 : UInt8).toNat = 0x90 := rfl
  have h8F : (0x8F : UInt8).toNat = 0x8F := rfl
  rw [decodeFrom_lead (by omega) (lead_four (by omega)), h0,
    decodeFrom_more_octet h1 ((low_le_iff (by decide)).mpr (by omega))
      ((le_high_iff (by decide)).mpr (by omega)),
    decodeFrom_more_octet h2 (octet_bounds h2).1 (octet_bounds h2).2,
    decodeFrom_last_octet h3 (octet_bounds h3).1 (octet_bounds h3).2, hvalue]

end Writing

/-- **One character.** Its octets are read as that character. -/
theorem decodeFrom_encodeChar (c : Char) (r : Bytes) :
    decodeFrom .ready (encodeChar c ++ r) = (decodeFrom .ready r).map (c :: ·) := by
  have hc : Char.ofNat c.toNat = c := Char.ofNat_toNat c
  have hvalid := toNat_valid c
  unfold encodeChar
  dsimp only
  generalize c.toNat = n at hc hvalid
  split
  · have h0 : (UInt8.ofNat n).toNat = n := toNat_octet (by omega)
    rw [List.singleton_append, decodeFrom_ascii (by omega), h0, hc]
  split
  · rw [← hc]
    exact decodeFrom_two (by omega) r
  split
  · rw [← hc]
    exact decodeFrom_three (by omega) (by omega) r
  · rw [← hc]
    exact decodeFrom_four (by omega) r

/-- What was written is read back. -/
theorem decode_encode (cs : List Char) : decode (encode cs) = some cs := by
  rw [decode, encode]
  induction cs with
  | nil => rfl
  | cons c r ih => rw [List.flatMap_cons, decodeFrom_encodeChar, ih, Option.map_some]

/-! ## What is read was written -/

private theorem within_cons {value more : Nat} {low high : UInt8} {bs : Bytes} {cs : List Char}
    (h : decodeFrom (.within value low high more) bs = some cs) :
    ∃ b r, bs = b :: r ∧ low.toNat ≤ b.toNat ∧ b.toNat ≤ high.toNat := by
  cases bs with
  | nil => simp [decodeFrom] at h
  | cons b r =>
    by_cases hb : low ≤ b ∧ b ≤ high
    · exact ⟨b, r, rfl, UInt8.le_iff_toNat_le.mp hb.1, UInt8.le_iff_toNat_le.mp hb.2⟩
    · simp [decodeFrom, feed, hb] at h

/-- The last octet of a character completes it. -/
theorem within_last {value : Nat} {low high : UInt8} {bs : Bytes} {cs : List Char}
    (h : decodeFrom (.within value low high 0) bs = some cs) :
    ∃ b r cs', bs = b :: r ∧ low.toNat ≤ b.toNat ∧ b.toNat ≤ high.toNat ∧
      cs = Char.ofNat (next value b) :: cs' ∧ decodeFrom .ready r = some cs' := by
  obtain ⟨b, r, rfl, hlow, hhigh⟩ := within_cons h
  rw [decodeFrom_last hlow hhigh, Option.map_eq_some_iff] at h
  obtain ⟨cs', hr, hcs⟩ := h
  exact ⟨b, r, cs', rfl, hlow, hhigh, hcs.symm, hr⟩

/-- An octet before the last one goes into the value. -/
theorem within_more {value more : Nat} {low high : UInt8} {bs : Bytes} {cs : List Char}
    (h : decodeFrom (.within value low high (more + 1)) bs = some cs) :
    ∃ b r, bs = b :: r ∧ low.toNat ≤ b.toNat ∧ b.toNat ≤ high.toNat ∧
      decodeFrom (.within (next value b) 0x80 0xBF more) r = some cs := by
  obtain ⟨b, r, rfl, hlow, hhigh⟩ := within_cons h
  rw [decodeFrom_more hlow hhigh] at h
  exact ⟨b, r, rfl, hlow, hhigh, h⟩

private theorem encodeChar_ofNat {n : Nat} (h : n < 0xD800 ∨ 0xDFFF < n ∧ n < 0x110000) :
    encodeChar (Char.ofNat n) =
      if n < 0x80 then [UInt8.ofNat n]
      else if n < 0x800 then [UInt8.ofNat (0xC0 + n / 0x40), UInt8.ofNat (0x80 + n % 0x40)]
      else if n < 0x10000 then
        [UInt8.ofNat (0xE0 + n / 0x1000), UInt8.ofNat (0x80 + n / 0x40 % 0x40),
          UInt8.ofNat (0x80 + n % 0x40)]
      else
        [UInt8.ofNat (0xF0 + n / 0x40000), UInt8.ofNat (0x80 + n / 0x1000 % 0x40),
          UInt8.ofNat (0x80 + n / 0x40 % 0x40), UInt8.ofNat (0x80 + n % 0x40)] := by
  rw [encodeChar, toNat_char_ofNat h]

/-- The octets start with those of a character, and what follows is read as the
rest. -/
def StartsWithChar (bs : Bytes) (cs : List Char) : Prop :=
  ∃ c cs' r, cs = c :: cs' ∧ bs = encodeChar c ++ r ∧ decodeFrom .ready r = some cs'

section Reading

variable {b : UInt8} {r : Bytes} {cs : List Char}

theorem startsWithChar_one (hb : b.toNat < 0x80) (h : decodeFrom .ready (b :: r) = some cs) :
    StartsWithChar (b :: r) cs := by
  rw [decodeFrom_ascii hb, Option.map_eq_some_iff] at h
  obtain ⟨cs', hr, rfl⟩ := h
  refine ⟨_, cs', r, rfl, ?_, hr⟩
  rw [encodeChar_ofNat (by omega), if_pos hb, octet_toNat b rfl, List.singleton_append]

theorem startsWithChar_two (hb : 0xC2 ≤ b.toNat ∧ b.toNat < 0xE0)
    (h : decodeFrom .ready (b :: r) = some cs) : StartsWithChar (b :: r) cs := by
  have h80 : (0x80 : UInt8).toNat = 0x80 := rfl
  have hBF : (0xBF : UInt8).toNat = 0xBF := rfl
  rw [decodeFrom_lead (by omega) (lead_two hb)] at h
  obtain ⟨b1, r, cs', rfl, hlow, hhigh, rfl, hr⟩ := within_last h
  refine ⟨_, cs', r, rfl, ?_, hr⟩
  unfold next
  rw [encodeChar_ofNat (by omega), if_neg (by omega), if_pos (by omega), octet_toNat b (by omega),
    octet_toNat b1 (by omega), List.cons_append, List.singleton_append]

theorem startsWithChar_three (hb : 0xE0 ≤ b.toNat ∧ b.toNat < 0xF0)
    (h : decodeFrom .ready (b :: r) = some cs) : StartsWithChar (b :: r) cs := by
  have h80 : (0x80 : UInt8).toNat = 0x80 := rfl
  have hBF : (0xBF : UInt8).toNat = 0xBF := rfl
  have hA0 : (0xA0 : UInt8).toNat = 0xA0 := rfl
  have h9F : (0x9F : UInt8).toNat = 0x9F := rfl
  rw [decodeFrom_lead (by omega) (lead_three hb)] at h
  obtain ⟨b1, r, rfl, hlow, hhigh, h⟩ := within_more h
  obtain ⟨b2, r, cs', rfl, hlow2, hhigh2, rfl, hr⟩ := within_last h
  rw [low_le_iff (by decide)] at hlow
  rw [le_high_iff (by decide)] at hhigh
  refine ⟨_, cs', r, rfl, ?_, hr⟩
  unfold next
  rw [encodeChar_ofNat (by omega), if_neg (by omega), if_neg (by omega), if_pos (by omega),
    octet_toNat b (by omega), octet_toNat b1 (by omega), octet_toNat b2 (by omega)]
  rfl

theorem startsWithChar_four (hb : 0xF0 ≤ b.toNat ∧ b.toNat < 0xF5)
    (h : decodeFrom .ready (b :: r) = some cs) : StartsWithChar (b :: r) cs := by
  have h80 : (0x80 : UInt8).toNat = 0x80 := rfl
  have hBF : (0xBF : UInt8).toNat = 0xBF := rfl
  have h90 : (0x90 : UInt8).toNat = 0x90 := rfl
  have h8F : (0x8F : UInt8).toNat = 0x8F := rfl
  rw [decodeFrom_lead (by omega) (lead_four hb)] at h
  obtain ⟨b1, r, rfl, hlow, hhigh, h⟩ := within_more h
  obtain ⟨b2, r, rfl, hlow2, hhigh2, h⟩ := within_more h
  obtain ⟨b3, r, cs', rfl, hlow3, hhigh3, rfl, hr⟩ := within_last h
  rw [low_le_iff (by decide)] at hlow
  rw [le_high_iff (by decide)] at hhigh
  refine ⟨_, cs', r, rfl, ?_, hr⟩
  unfold next
  rw [encodeChar_ofNat (by omega), if_neg (by omega), if_neg (by omega), if_neg (by omega),
    octet_toNat b (by omega), octet_toNat b1 (by omega), octet_toNat b2 (by omega),
    octet_toNat b3 (by omega)]
  rfl

/-- **One character** at the start of octets that are read. -/
theorem startsWithChar (h : decodeFrom .ready (b :: r) = some cs) : StartsWithChar (b :: r) cs := by
  have hlt := b.toNat_lt
  by_cases h1 : b.toNat < 0x80
  · exact startsWithChar_one h1 h
  by_cases h2 : 0xC2 ≤ b.toNat ∧ b.toNat < 0xE0
  · exact startsWithChar_two h2 h
  by_cases h3 : 0xE0 ≤ b.toNat ∧ b.toNat < 0xF0
  · exact startsWithChar_three h3 h
  by_cases h4 : 0xF0 ≤ b.toNat ∧ b.toNat < 0xF5
  · exact startsWithChar_four h4 h
  · have hb : ¬ b < 0x80 := by
      intro hb
      exact h1 (UInt8.lt_iff_toNat_lt.mp hb)
    have hnone : lead b = none := lead_none (by omega)
    simp [decodeFrom, feed, hb, hnone] at h

end Reading

/-- What is read is what was written. -/
theorem encode_of_decode {bs : Bytes} {cs : List Char} (h : decode bs = some cs) :
    encode cs = bs := by
  rw [decode] at h
  induction hn : bs.length using Nat.strongRecOn generalizing bs cs with
  | _ n ih =>
    cases bs with
    | nil =>
      simp only [decodeFrom, Option.some.injEq] at h
      rw [← h]
      rfl
    | cons b r =>
      obtain ⟨c, cs', r', rfl, hbs, hr⟩ := startsWithChar h
      -- A character has an octet at least, so what is left is shorter.
      have hpos : 0 < (encodeChar c).length := by
        unfold encodeChar
        dsimp only
        split_ifs <;> simp
      have hlen : r'.length < n := by
        rw [← hn, hbs, List.length_append]
        omega
      rw [hbs, encode, List.flatMap_cons, ← encode, ih _ hlen hr rfl]

/-! ## Names and texts -/

/-- A name that is text is the octets of that text. -/
theorem ofString_of_toString? {bs : Bytes} {s : String} (h : toString? bs = some s) :
    ofString s = bs := by
  rw [toString?, Option.map_eq_some_iff] at h
  obtain ⟨cs, hcs, rfl⟩ := h
  rw [ofString, String.toList_ofList, encode_of_decode hcs]

theorem toString?_inj {a b : Bytes} {s : String} (ha : toString? a = some s)
    (hb : toString? b = some s) : a = b := by
  rw [← ofString_of_toString? ha, ofString_of_toString? hb]

end GuestSync.Utf8
