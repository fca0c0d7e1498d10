/-
# GuestSync.Proofs.LiteralValues -- which number a literal denotes

A literal is read in words of 64 bits, with a check at every digit. What it denotes knows
nothing of words: `Spells n w` says that the octets `w` are the digits of the number `n` to
the base ten, or to the base sixteen behind their mark, with any number of zeros in front and
with letters in either case. Every literal in a header spells one number. Reading gives that
number if it is below 2^64 and nothing if it is not, because a number with more digits is
never smaller: once a check has failed, no later digit makes up for it.
-/
import GuestSync.Proofs.MemberLines

namespace GuestSync.Member

open Ascii

/-! ## The digits of a number -/

/-- The digits of a number to a base, in small letters. -/
def digitsOf (base n : Nat) : Bytes := (Nat.toDigits base n).map fun c => UInt8.ofNat c.toNat

/-- The octets are the digits of a number to a base, with zeros in front of them and with
letters in either case. -/
def Digits (base n : Nat) (ds : Bytes) : Prop :=
  ∃ zeros, ds.map toLower = List.replicate zeros 0x30 ++ digitsOf base n

/-- The octets spell a number. -/
inductive Spells (n : Nat) : Bytes → Prop
  | decimal {ds : Bytes} (digits : Digits 10 n ds) : Spells n ds
  | hexadecimal {x : UInt8} {ds : Bytes} (mark : toLower x = 0x78) (digits : Digits 16 n ds) :
      Spells n (0x30 :: x :: ds)

/-- The octet of a digit. -/
def digitOctet (v : Nat) : UInt8 := UInt8.ofNat (Nat.digitChar v).toNat

/-- The number that digits denote by their places. -/
def ofDigits (base : Nat) (ds : Bytes) : Nat :=
  ds.foldl (fun n d => n * base + (digitValue d).toNat) 0

theorem ofDigits_concat (base : Nat) (ds : Bytes) (d : UInt8) :
    ofDigits base (ds ++ [d]) = ofDigits base ds * base + (digitValue d).toNat := by
  simp [ofDigits]

/-- The octets of a class are the digits to a base. -/
structure IsBase (base : Nat) (isDigit : UInt8 → Bool) : Prop where
  one_lt : 1 < base
  value_lt : ∀ d, isDigit d → (digitValue d).toNat < base
  octet : ∀ d, isDigit d → toLower d = digitOctet (digitValue d).toNat
  digit : ∀ v < base, isDigit (digitOctet v) ∧ (digitValue (digitOctet v)).toNat = v
  lower : ∀ d, isDigit (toLower d) = isDigit d

theorem isBase_ten : IsBase 10 Ascii.isDigit := by
  constructor <;> decide +kernel

theorem isBase_sixteen : IsBase 16 isHexDigit := by
  constructor <;> decide +kernel

theorem digitValue_toLower : ∀ d : UInt8, digitValue (toLower d) = digitValue d := by
  decide +kernel

/-- The case of letters does not matter to the number. -/
theorem ofDigits_map_toLower (base : Nat) (ds : Bytes) :
    ofDigits base (ds.map toLower) = ofDigits base ds := by
  simp only [ofDigits, List.foldl_map, digitValue_toLower]

/-- Zeros in front do not matter to the number. -/
theorem ofDigits_zeros (base zeros : Nat) (ds : Bytes) :
    ofDigits base (List.replicate zeros 0x30 ++ ds) = ofDigits base ds := by
  have hzero : ((digitValue 0x30).toNat : Nat) = 0 := by decide
  have hfold : (List.replicate zeros (0x30 : UInt8)).foldl
      (fun n d => n * base + (digitValue d).toNat) 0 = 0 := by
    induction zeros with
    | zero => rfl
    | succ k ih => rwa [List.replicate_succ, List.foldl_cons, hzero, Nat.zero_mul, Nat.add_zero]
  rw [ofDigits, List.foldl_append, hfold, ofDigits]

theorem digitsOf_of_lt {base v : Nat} (hv : v < base) : digitsOf base v = [digitOctet v] := by
  rw [digitsOf, Nat.toDigits_of_lt_base hv]
  rfl

section Base

variable {base : Nat} {isDigit : UInt8 → Bool} (hb : IsBase base isDigit)

include hb

theorem digitsOf_concat {n v : Nat} (hn : 0 < n) (hv : v < base) :
    digitsOf base (n * base + v) = digitsOf base n ++ [digitOctet v] := by
  rw [← digitsOf_of_lt hv, digitsOf, digitsOf, digitsOf, ← List.map_append,
    Nat.toDigits_append_toDigits hb.one_lt hn hv, Nat.mul_comm]

/-- The digits of a number are digits, and they denote it. -/
theorem digitsOf_spec (n : Nat) :
    digitsOf base n ≠ [] ∧ (∀ d ∈ digitsOf base n, isDigit d) ∧
      ofDigits base (digitsOf base n) = n := by
  induction n using Nat.strongRecOn with
  | ind n ih =>
    by_cases hn : n < base
    · obtain ⟨hdigit, hvalue⟩ := hb.digit n hn
      rw [digitsOf_of_lt hn]
      exact ⟨by simp, by simpa using hdigit, by simpa [ofDigits] using hvalue⟩
    · have hone := hb.one_lt
      have hv : n % base < base := Nat.mod_lt n (by omega)
      have hpos : 0 < n / base := Nat.div_pos (by omega) (by omega)
      obtain ⟨-, hdigits, hvalue⟩ := ih (n / base) (Nat.div_lt_self (by omega) hone)
      obtain ⟨hdigit, hlast⟩ := hb.digit (n % base) hv
      have hsplit : digitsOf base n = digitsOf base (n / base) ++ [digitOctet (n % base)] := by
        rw [← digitsOf_concat hb hpos hv, Nat.div_add_mod']
      refine ⟨by simp [hsplit], ?_, ?_⟩
      · intro d hd
        rw [hsplit, List.mem_append, List.mem_singleton] at hd
        rcases hd with hd | rfl
        · exact hdigits d hd
        · exact hdigit
      · rw [hsplit, ofDigits_concat, hvalue, hlast, Nat.div_add_mod']

/-- Digits are those of the number that they denote, behind zeros. -/
theorem digits_ofDigits {ds : Bytes} (hne : ds ≠ []) (hds : ∀ d ∈ ds, isDigit d) :
    Digits base (ofDigits base ds) ds := by
  -- The induction takes the last digit away, as the number does.
  induction ds using List.reverseRecOn with
  | nil => exact absurd rfl hne
  | append_singleton ds d ih =>
    have hd := hds d (by simp)
    have hv := hb.value_lt d hd
    have hlast := hb.octet d hd
    rw [ofDigits_concat]
    by_cases hnil : ds = []
    · subst hnil
      refine ⟨0, ?_⟩
      simp [ofDigits, digitsOf_of_lt hv, hlast]
    · obtain ⟨zeros, hdigits⟩ := ih hnil fun d' hd' => hds d' (by simp [hd'])
      rcases Nat.eq_zero_or_pos (ofDigits base ds) with hzero | hpos
      · -- What stands in front of the last digit is zeros only.
        have hoctet : digitOctet 0 = 0x30 := rfl
        rw [hzero, digitsOf_of_lt (Nat.zero_lt_of_lt hv), hoctet,
          ← List.replicate_succ'] at hdigits
        refine ⟨zeros + 1, ?_⟩
        rw [List.map_append, hdigits, hzero, Nat.zero_mul, Nat.zero_add, digitsOf_of_lt hv,
          List.map_singleton, hlast]
      · refine ⟨zeros, ?_⟩
        rw [List.map_append, hdigits, digitsOf_concat hb hpos hv, List.append_assoc,
          List.map_singleton, hlast]

theorem Digits.spec {n : Nat} {ds : Bytes} (h : Digits base n ds) :
    ds ≠ [] ∧ (∀ d ∈ ds, isDigit d) ∧ ofDigits base ds = n := by
  obtain ⟨zeros, hds⟩ := h
  obtain ⟨hne, hdigits, hvalue⟩ := digitsOf_spec hb n
  refine ⟨?_, ?_, ?_⟩
  · rintro rfl
    simp [hne] at hds
  · intro d hd
    have hmem : toLower d ∈ List.replicate zeros 0x30 ++ digitsOf base n :=
      hds ▸ List.mem_map_of_mem hd
    rw [← hb.lower]
    rcases List.mem_append.mp hmem with hzero | hdigit
    · rw [List.eq_of_mem_replicate hzero]
      exact (hb.digit 0 (Nat.zero_lt_of_lt hb.one_lt)).1
    · exact hdigits _ hdigit
  · rw [← ofDigits_map_toLower, hds, ofDigits_zeros, hvalue]

end Base

/-! ## Reading with a check at every digit -/

/-- The word for a number below 2^64. -/
def word? (n : Nat) : Option UInt64 := if n < 2 ^ 64 then some (UInt64.ofNat n) else none

theorem word?_eq_some {n : Nat} {v : UInt64} : word? n = some v ↔ v.toNat = n := by
  unfold word?
  constructor
  · intro h
    split at h
    · next hn =>
      rw [← Option.some.inj h]
      exact UInt64.toNat_ofNat_of_lt' hn
    · simp at h
  · rintro rfl
    rw [if_pos v.toNat_lt, UInt64.ofNat_toNat]

theorem word?_eq_none {n : Nat} : word? n = none ↔ 2 ^ 64 ≤ n := by
  unfold word?
  split
  · next h => simp only [reduceCtorEq, false_iff, Nat.not_le, h]
  · next h => simpa using h

theorem product?_eq (a b : UInt64) : product? a b = word? (a.toNat * b.toNat) := by
  simp only [product?, word?, UInt64.ofNat_mul, UInt64.ofNat_toNat]
  rfl

theorem sum?_eq (a b : UInt64) : sum? a b = word? (a.toNat + b.toNat) := by
  simp only [sum?, word?, UInt64.ofNat_add, UInt64.ofNat_toNat]
  rfl

/-- A digit more is one step of the number, and where a check fails the number is too large
and stays so. -/
theorem word?_bind_pushDigit? {isDigit : UInt8 → Bool} (base : UInt64) (n : Nat) {d : UInt8}
    (hpos : 0 < base.toNat) (hd : isDigit d) :
    (word? n).bind (pushDigit? base isDigit · d) =
      word? (n * base.toNat + (digitValue d).toNat) := by
  have hle : n ≤ n * base.toNat := Nat.le_mul_of_pos_right n hpos
  cases hn : word? n with
  | none =>
    have hlarge := word?_eq_none.mp hn
    exact (word?_eq_none.mpr (by omega)).symm
  | some a =>
    obtain rfl := word?_eq_some.mp hn
    rw [Option.bind_some, pushDigit?, guard, if_pos hd, product?_eq]
    show (word? (a.toNat * base.toNat)).bind (sum? · (digitValue d).toUInt64) = _
    cases hm : word? (a.toNat * base.toNat) with
    | none =>
      have hlarge := word?_eq_none.mp hm
      exact (word?_eq_none.mpr (by omega)).symm
    | some b =>
      rw [Option.bind_some, sum?_eq, word?_eq_some.mp hm]
      rfl

/-- **Digits are read to their number or refused.** -/
theorem number?_eq {base : UInt64} {isDigit : UInt8 → Bool} (hb : IsBase base.toNat isDigit)
    {ds : Bytes} (hne : ds ≠ []) (hds : ∀ d ∈ ds, isDigit d) :
    number? base isDigit ds = word? (ofDigits base.toNat ds) := by
  have hpos : 0 < base.toNat := Nat.zero_lt_of_lt hb.one_lt
  rw [number?, if_neg hne]
  clear hne
  induction ds using List.reverseRecOn with
  | nil => rfl
  | append_singleton ds d ih =>
    rw [List.foldlM_append, ih fun d' hd' => hds d' (by simp [hd']), ofDigits_concat,
      ← word?_bind_pushDigit? base _ hpos (hds d (by simp))]
    simp only [List.foldlM_cons, List.foldlM_nil, bind_pure]
    rfl

/-! ## What a literal spells -/

/-- A literal that spells a number is read to it or refused. -/
theorem Spells.value? {n : Nat} {w : Bytes} (h : Spells n w) : value? w = word? n := by
  cases h with
  | hexadecimal mark digits =>
    obtain ⟨hne, hds, rfl⟩ := digits.spec isBase_sixteen
    have hb : IsBase (16 : UInt64).toNat isHexDigit := isBase_sixteen
    rw [Member.value?, if_pos ⟨rfl, mark⟩]
    exact number?_eq hb hne hds
  | decimal digits =>
    obtain ⟨hne, hds, rfl⟩ := digits.spec isBase_ten
    have hread : Member.value? w = number? 10 isDigit w := by
      unfold Member.value?
      split
      · next z x r =>
        rw [if_neg]
        rintro ⟨-, hx⟩
        have hdigit := hds x (by simp)
        simp [not_isDigit_of_mark hx] at hdigit
      · rfl
    have hb : IsBase (10 : UInt64).toNat isDigit := isBase_ten
    rw [hread]
    exact number?_eq hb hne hds

theorem Spells.numeral {n : Nat} {w : Bytes} (h : Spells n w) : Numeral w := by
  cases h with
  | decimal digits =>
    obtain ⟨hne, hds, -⟩ := digits.spec isBase_ten
    exact .decimal hne hds
  | hexadecimal mark digits =>
    obtain ⟨hne, hds, -⟩ := digits.spec isBase_sixteen
    exact .hexadecimal mark hne hds

/-- The digits of a mark are no digits of a decimal number, so a literal spells one number
only. -/
theorem Spells.unique {n k : Nat} {w : Bytes} (h : Spells n w) (h' : Spells k w) : n = k := by
  have hmark : ∀ {j : Nat} {x : UInt8} {ds : Bytes}, toLower x = 0x78 →
      ¬ Digits 10 j (0x30 :: x :: ds) := by
    intro j x ds hx hdigits
    have hdigit := (hdigits.spec isBase_ten).2.1 x (by simp)
    simp [not_isDigit_of_mark hx] at hdigit
  cases h with
  | decimal digits =>
    cases h' with
    | decimal digits' =>
      exact (digits.spec isBase_ten).2.2.symm.trans (digits'.spec isBase_ten).2.2
    | hexadecimal mark digits' => exact absurd digits (hmark mark)
  | hexadecimal mark digits =>
    cases h' with
    | decimal digits' => exact absurd digits' (hmark mark)
    | hexadecimal mark' digits' =>
      exact (digits.spec isBase_sixteen).2.2.symm.trans (digits'.spec isBase_sixteen).2.2

theorem Numeral.spells {w : Bytes} (h : Numeral w) : ∃ n, Spells n w := by
  cases h with
  | decimal nonempty digits => exact ⟨_, .decimal (digits_ofDigits isBase_ten nonempty digits)⟩
  | hexadecimal mark nonempty digits =>
    exact ⟨_, .hexadecimal mark (digits_ofDigits isBase_sixteen nonempty digits)⟩

example : Spells 255 (Utf8.ofString "0X00fF") := .hexadecimal (by decide) ⟨2, by decide +kernel⟩

end GuestSync.Member
