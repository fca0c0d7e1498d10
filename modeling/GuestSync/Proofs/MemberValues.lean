/-
# GuestSync.Proofs.MemberValues -- members with exact numbers

What is found in a header is a name of word octets and a literal that spells a number. The
members are made of these one after another, and the first literal whose number is too large
ends it. So a list of members comes of a header exactly if it has the names and the numbers
that are found, and a failure exactly if some literal is too large and none before it is.

A member that is written on a line, in either base and with any ending, is read back from
that line, and since the comma in front of the line feed parts one line from the next, a list
of members is read back from its lines.
-/
import GuestSync.Proofs.LiteralValues

namespace GuestSync

/-! ## Lists of results -/

section Results

variable {α β ε : Type} {f : α → Except ε β}

theorem mapM_eq_ok {as : List α} {bs : List β} :
    as.mapM f = .ok bs ↔ List.Forall₂ (fun a b => f a = .ok b) as bs := by
  induction as generalizing bs with
  | nil => cases bs <;> simp [pure, Except.pure]
  | cons a as ih =>
    rw [List.mapM_cons]
    cases ha : f a with
    | error e => cases bs <;> simp [ha, bind, Except.bind]
    | ok b =>
      cases has : as.mapM f with
      | error e =>
        rw [has] at ih
        cases bs <;> simp [ha, bind, Except.bind, ← ih]
      | ok bs' =>
        rw [has] at ih
        cases bs <;> simp [ha, bind, Except.bind, pure, Except.pure, ← ih]

/-- A list of results fails with its first failure. -/
theorem mapM_eq_error {as : List α} {e : ε} :
    as.mapM f = .error e ↔ ∃ before a after, as = before ++ a :: after ∧
      (∀ b ∈ before, ∃ c, f b = .ok c) ∧ f a = .error e := by
  induction as with
  | nil => simp [pure, Except.pure]
  | cons a as ih =>
    rw [List.mapM_cons]
    cases ha : f a with
    | error e' =>
      constructor
      · intro h
        obtain rfl : e' = e := by simpa [bind, Except.bind] using h
        exact ⟨[], a, as, rfl, by simp, ha⟩
      · rintro ⟨before, a', after, hsplit, hbefore, hfail⟩
        cases before with
        | nil =>
          obtain ⟨rfl, -⟩ := List.cons.inj hsplit
          rw [← ha, hfail]
          rfl
        | cons b before =>
          obtain ⟨rfl, -⟩ := List.cons.inj hsplit
          obtain ⟨c, hc⟩ := hbefore a (by simp)
          simp [ha] at hc
    | ok b =>
      have hrest : (do let b ← Except.ok (ε := ε) b; let bs ← as.mapM f; pure (b :: bs)) =
          .error e ↔ as.mapM f = .error e := by
        cases as.mapM f <;> simp [bind, Except.bind, pure, Except.pure]
      rw [hrest, ih]
      constructor
      · rintro ⟨before, a', after, rfl, hbefore, hfail⟩
        exact ⟨a :: before, a', after, rfl, by simpa [ha] using hbefore, hfail⟩
      · rintro ⟨before, a', after, hsplit, hbefore, hfail⟩
        cases before with
        | nil =>
          obtain ⟨rfl, -⟩ := List.cons.inj hsplit
          simp [ha] at hfail
        | cons b before =>
          obtain ⟨rfl, rfl⟩ := List.cons.inj hsplit
          exact ⟨before, a', after, rfl, fun x hx => hbefore x (by simp [hx]), hfail⟩

end Results

namespace Member

open Ascii

/-! ## What is found in a header -/

/-- Octets that can be the name of a member. -/
def IsName (name : Bytes) : Prop := name ≠ [] ∧ ∀ b ∈ name, isWord b

theorem memberAt?_parts {bs : Bytes} {m : Found} (h : memberAt? bs = some m) :
    IsName m.name ∧ Numeral m.numeral := by
  unfold memberAt? at h
  dsimp only at h
  split at h
  · simp at h
  · rw [Option.ite_none_right_eq_some, Option.map_eq_some_iff] at h
    obtain ⟨⟨hname, -⟩, n, hn, rfl⟩ := h
    obtain ⟨e, -, hnumeral, -⟩ := numeralOf?_eq_some.mp hn
    exact ⟨⟨hname, fun b hb => List.mem_takeWhile_imp hb⟩, hnumeral⟩

/-- Every name that is found is a word, and every literal spells a number. -/
theorem literals_parts {header : Bytes} {l : Bytes × Bytes} (hl : l ∈ literals header) :
    IsName l.1 ∧ ∃ n, Spells n l.2 := by
  rw [literals_eq_readFrom] at hl
  have hparts : ∀ fresh bs, l ∈ readFrom fresh bs → IsName l.1 ∧ ∃ n, Spells n l.2 := by
    intro fresh bs hl
    fun_induction readFrom fresh bs with
    | case1 bs m hm ih =>
      rcases List.mem_cons.mp hl with rfl | hl
      · obtain ⟨hname, hnumeral⟩ := memberAt?_parts hm
        exact ⟨hname, hnumeral.spells⟩
      · exact ih hl
    | case2 bs hm ih => exact ih hl
    | case3 => simp at hl
    | case4 b r ih => exact ih hl
  exact hparts true header hl

/-! ## Members of what is found -/

theorem ofParts_of_spells {name w : Bytes} {n : Nat} (h : Spells n w) :
    ofParts name w =
      match word? n with
      | some value => .ok ⟨asciiString name, value⟩
      | none => .error (.badLiteral (asciiString name) (asciiString w)) := by
  unfold ofParts
  cases hn : word? n <;> simp only [h.value?, hn]

theorem ofParts_eq_ok {name w : Bytes} {n : Nat} (h : Spells n w) {m : Member} :
    ofParts name w = .ok m ↔ m.name = asciiString name ∧ Spells m.value.toNat w := by
  have hvalue : Spells m.value.toNat w ↔ word? n = some m.value := by
    rw [word?_eq_some]
    exact ⟨fun hm => hm.unique h, fun hm => hm ▸ h⟩
  rw [ofParts_of_spells h, hvalue]
  obtain ⟨mname, mvalue⟩ := m
  cases word? n with
  | none => simp
  | some value => simp [eq_comm]

theorem ofParts_eq_error {name w : Bytes} {n : Nat} (h : Spells n w) {f : Failure} :
    ofParts name w = .error f ↔
      2 ^ 64 ≤ n ∧ f = .badLiteral (asciiString name) (asciiString w) := by
  rw [ofParts_of_spells h, ← word?_eq_none]
  cases word? n with
  | none => simp [eq_comm]
  | some value => simp

theorem listOf_eq_ok {header : Bytes} {members : List Member} :
    listOf header = .ok members ↔
      List.Forall₂ (fun l m => m.name = asciiString l.1 ∧ Spells m.value.toNat l.2)
        (literals header) members := by
  rw [listOf, mapM_eq_ok]
  have hparts : ∀ l ∈ literals header, ∃ n, Spells n l.2 := fun l hl => (literals_parts hl).2
  generalize literals header = ls at hparts
  induction ls generalizing members with
  | nil => cases members <;> simp
  | cons l ls ih =>
    obtain ⟨n, hn⟩ := hparts l (by simp)
    cases members with
    | nil => simp
    | cons m ms =>
      rw [List.forall₂_cons, List.forall₂_cons]
      exact and_congr (ofParts_eq_ok hn) (ih fun l' hl' => hparts l' (by simp [hl']))

theorem listOf_eq_error {header : Bytes} {f : Failure} :
    listOf header = .error f ↔
      ∃ before name literal after n, literals header = before ++ (name, literal) :: after ∧
        (∀ l ∈ before, ∃ v < 2 ^ 64, Spells v l.2) ∧ Spells n literal ∧ 2 ^ 64 ≤ n ∧
        f = .badLiteral (asciiString name) (asciiString literal) := by
  have hparts : ∀ l ∈ literals header, ∃ n, Spells n l.2 := fun l hl => (literals_parts hl).2
  have hfits : ∀ l ∈ literals header, (∃ m, ofParts l.1 l.2 = .ok m) ↔
      ∃ v < 2 ^ 64, Spells v l.2 := by
    intro l hl
    obtain ⟨n, hn⟩ := hparts l hl
    constructor
    · rintro ⟨m, hm⟩
      exact ⟨m.value.toNat, m.value.toNat_lt, ((ofParts_eq_ok hn).mp hm).2⟩
    · rintro ⟨v, hv, hspells⟩
      refine ⟨⟨asciiString l.1, UInt64.ofNat v⟩, (ofParts_eq_ok hn).mpr ⟨rfl, ?_⟩⟩
      rwa [UInt64.toNat_ofNat_of_lt' hv]
  rw [listOf, mapM_eq_error]
  constructor
  · rintro ⟨before, ⟨name, literal⟩, after, hsplit, hbefore, hfail⟩
    obtain ⟨n, hn⟩ := hparts (name, literal) (by simp [hsplit])
    obtain ⟨hlarge, hf⟩ := (ofParts_eq_error hn).mp hfail
    exact ⟨before, name, literal, after, n, hsplit,
      fun l hl => (hfits l (by simp [hsplit, hl])).mp (hbefore l hl), hn, hlarge, hf⟩
  · rintro ⟨before, name, literal, after, n, hsplit, hbefore, hn, hlarge, hf⟩
    exact ⟨before, (name, literal), after, hsplit,
      fun l hl => (hfits l (by simp [hsplit, hl])).mpr (hbefore l hl),
      (ofParts_eq_error hn).mpr ⟨hlarge, hf⟩⟩

/-! ## Members on lines -/

/-- The line says that a member has its number: its name, an equals sign and a literal with
any ending, and then a comma. -/
def Line (m : Member) (line : Bytes) : Prop :=
  ∃ literal ending, Spells m.value.toNat literal ∧ isEnding ending ∧
    line = Utf8.ofString m.name ++ Utf8.ofString " = " ++ literal ++ ending ++ Utf8.ofString ",\n"

theorem Numeral.words {w : Bytes} (h : Numeral w) : w ≠ [] ∧ ∀ b ∈ w, isWord b := by
  have hmark : ∀ x : UInt8, toLower x = 0x78 → isWord x := by decide +kernel
  cases h with
  | decimal nonempty digits => exact ⟨nonempty, fun b hb => isWord_of_isDigit (digits b hb)⟩
  | hexadecimal mark nonempty digits =>
    refine ⟨by simp, ?_⟩
    simp only [List.forall_mem_cons]
    exact ⟨by decide, hmark _ mark, fun b hb => isWord_of_isHexDigit (digits b hb)⟩

theorem isWord_of_mem_ending {e : Bytes} (h : isEnding e) : ∀ b ∈ e, isWord b := by
  have hlower : ∀ b : UInt8, toLower b = 0x75 ∨ toLower b = 0x6C → isWord b := by decide +kernel
  intro b hb
  have hmem : toLower b ∈ e.map toLower := List.mem_map_of_mem hb
  apply hlower
  simp only [isEnding, List.contains_iff_mem, List.mem_cons, List.not_mem_nil, or_false] at h
  rcases h with h | h | h | h <;> rw [h] at hmem <;> simp at hmem <;> simp [hmem]

/-- A word stands up to where it ends, and blanks do not start with it. -/
theorem word_front {w r : Bytes} (hne : w ≠ []) (hw : ∀ b ∈ w, isWord b)
    (hr : ∀ b ∈ r.head?, isWord b = false) :
    (w ++ r).dropWhile isSpace = w ++ r ∧ (w ++ r).takeWhile isWord = w ∧
      (w ++ r).dropWhile isWord = r := by
  obtain ⟨b, w, rfl⟩ := List.exists_cons_of_ne_nil hne
  have hspace : ¬ isSpace b = true := fun h => not_isWord_of_isSpace h (hw b (by simp))
  have hstop : r.takeWhile isWord = [] ∧ r.dropWhile isWord = r := by
    cases r with
    | nil => simp
    | cons c r => simp [hr c rfl]
  refine ⟨by rw [List.cons_append, List.dropWhile_cons_of_neg hspace], ?_, ?_⟩
  · rw [List.takeWhile_append_of_pos hw, hstop.1, List.append_nil]
  · rw [List.dropWhile_append_of_pos hw, hstop.2]

theorem memberAt?_line {name literal ending : Bytes} (hname : IsName name) (hl : Numeral literal)
    (he : isEnding ending) :
    memberAt? (name ++ Utf8.ofString " = " ++ literal ++ ending) =
      some ⟨name, literal, literal ++ ending, []⟩ := by
  obtain ⟨hne, hwords⟩ := hl.words
  have hsign : Utf8.ofString " = " = [0x20, 0x3D, 0x20] := by decide
  have hword : ∀ b ∈ literal ++ ending, isWord b := by
    intro b hb
    rcases List.mem_append.mp hb with hb | hb
    · exact hwords b hb
    · exact isWord_of_mem_ending he b hb
  have hfront := word_front hname.1 hname.2
    (r := 0x20 :: 0x3D :: 0x20 :: (literal ++ ending)) (by simp; decide)
  have hbehind := word_front (r := []) (List.append_ne_nil_of_left_ne_nil hne ending) hword
    (by simp)
  rw [List.append_nil] at hbehind
  have hblank : ∀ r : Bytes, (0x20 :: r).dropWhile isSpace = r.dropWhile isSpace :=
    fun r => List.dropWhile_cons_of_pos (by decide)
  have hequals : ∀ r : Bytes, (0x3D :: r).dropWhile isSpace = 0x3D :: r :=
    fun r => List.dropWhile_cons_of_neg (by decide)
  have hnumeral : numeralOf? (literal ++ ending) = some literal :=
    numeralOf?_eq_some.mpr ⟨ending, rfl, hl, he⟩
  have htext : name ++ Utf8.ofString " = " ++ literal ++ ending =
      name ++ 0x20 :: 0x3D :: 0x20 :: (literal ++ ending) := by simp [hsign]
  rw [htext, memberAt?]
  simp only [hfront.1, hfront.2.1, hfront.2.2, hblank, hequals, hbehind.1, hbehind.2.1,
    hbehind.2.2, hnumeral]
  rw [if_pos ⟨hname.1, trivial⟩, Option.map_some]

/-- The literals on lines are those that were written. -/
theorem literals_lines {members : List Member} {lines : List Bytes}
    (hnames : ∀ m ∈ members, IsName (Utf8.ofString m.name))
    (h : List.Forall₂ Line members lines) :
    List.Forall₂ (fun l m => l.1 = Utf8.ofString m.name ∧ Spells m.value.toNat l.2)
      (literals lines.flatten) members := by
  induction h with
  | nil =>
    have hnone : literals [] = [] := by
      rw [literals_eq_readFrom, readFrom_of_no_member memberAt?_nil, readFrom]
    rw [List.flatten_nil, hnone]
    exact .nil
  | @cons m line members lines hline _ ih =>
    obtain ⟨literal, ending, hl, he, rfl⟩ := hline
    have hend : Utf8.ofString ",\n" = [0x2C, lineFeed] := by decide
    have hone : literals (Utf8.ofString m.name ++ Utf8.ofString " = " ++ literal ++ ending) =
        [(Utf8.ofString m.name, literal)] := by
      rw [literals_eq_readFrom,
        readFrom_of_member (memberAt?_line (hnames m (by simp)) hl.numeral he), readFrom]
    have hsplit : (Utf8.ofString m.name ++ Utf8.ofString " = " ++ literal ++ ending ++
        Utf8.ofString ",\n") ++ lines.flatten =
        Utf8.ofString m.name ++ Utf8.ofString " = " ++ literal ++ ending ++
          0x2C :: lineFeed :: lines.flatten := by simp [hend]
    rw [List.flatten_cons, hsplit, literals_seam (by decide) (by decide) (by decide), hone]
    exact .cons ⟨rfl, hl⟩ (ih fun m' hm' => hnames m' (by simp [hm']))

/-- A string of word octets is the string of its octets. -/
theorem asciiString_ofString {s : String} (h : ∀ b ∈ Utf8.ofString s, isWord b) :
    asciiString (Utf8.ofString s) = s := by
  have hlow : ∀ b : UInt8, isWord b → b.toNat < 0x80 := by decide +kernel
  have hchars : ∀ cs : List Char, (∀ b ∈ Utf8.encode cs, isWord b) →
      (Utf8.encode cs).map (fun b => Char.ofNat b.toNat) = cs := by
    intro cs hcs
    induction cs with
    | nil => rfl
    | cons c cs ih =>
      have hsplit : Utf8.encode (c :: cs) = Utf8.encodeChar c ++ Utf8.encode cs := rfl
      rw [hsplit] at hcs ⊢
      obtain ⟨b, r, hb, -⟩ := Lines.head_encodeChar c
      have hmem : b ∈ Utf8.encodeChar c := by simp [hb]
      have hascii : c.toNat < 0x80 := by
        have hbound := hlow b (hcs b (List.mem_append_left _ hmem))
        rcases Utf8.toNat_of_mem_encodeChar hmem with hsame | hhigh <;> omega
      have hone : Utf8.encodeChar c = [UInt8.ofNat c.toNat] := by
        rw [Utf8.encodeChar, if_pos hascii]
      rw [List.map_append, ih fun b' hb' => hcs b' (List.mem_append_right _ hb'), hone,
        List.map_singleton, Utf8.toNat_octet (by omega), Char.ofNat_toNat]
      rfl
  rw [asciiString, Utf8.ofString, hchars _ h, String.ofList_toList]

/-- **Numbers are exact or refused.** Each literal that is found in a header spells one
number. The header has members exactly if all these numbers are below 2^64; the members are
then those with the names that are found and with exactly these numbers, in the order of the
text. Otherwise it fails with the name and the literal of the first number that is not below
2^64. And any members whose names are words are read back from lines that say their numbers,
whichever way each number is spelled and whatever ending it has. -/
theorem listOf_values :
    (∀ header, (∀ l ∈ literals header, ∃! n, Spells n l.2) ∧
      ((∃ members, listOf header = .ok members) ↔
        ∀ l ∈ literals header, ∃ n < 2 ^ 64, Spells n l.2) ∧
      (∀ members, listOf header = .ok members ↔
        List.Forall₂ (fun l m => m.name = asciiString l.1 ∧ Spells m.value.toNat l.2)
          (literals header) members) ∧
      ∀ f, listOf header = .error f ↔
        ∃ before name literal after n, literals header = before ++ (name, literal) :: after ∧
          (∀ l ∈ before, ∃ v < 2 ^ 64, Spells v l.2) ∧ Spells n literal ∧ 2 ^ 64 ≤ n ∧
          f = .badLiteral (asciiString name) (asciiString literal)) ∧
    ∀ members lines, (∀ m ∈ members, IsName (Utf8.ofString m.name)) →
      List.Forall₂ Line members lines → listOf lines.flatten = .ok members := by
  constructor
  · intro header
    refine ⟨?_, ⟨?_, ?_⟩, fun members => listOf_eq_ok, fun f => listOf_eq_error⟩
    · intro l hl
      obtain ⟨-, n, hn⟩ := literals_parts hl
      exact ⟨n, hn, fun k hk => hk.unique hn⟩
    · rintro ⟨members, hmembers⟩ l hl
      obtain ⟨hlength, hread⟩ := List.forall₂_iff_get.mp (listOf_eq_ok.mp hmembers)
      obtain ⟨i, hi, rfl⟩ := List.getElem_of_mem hl
      exact ⟨_, UInt64.toNat_lt _, (hread i hi (hlength ▸ hi)).2⟩
    · intro hfits
      cases hlist : listOf header with
      | ok members => exact ⟨members, rfl⟩
      | error f =>
        -- The literal that fails spells a number that fits, and another one that does not.
        obtain ⟨before, name, literal, after, n, hsplit, -, hn, hlarge, -⟩ :=
          listOf_eq_error.mp hlist
        obtain ⟨v, hv, hspells⟩ := hfits (name, literal) (by simp [hsplit])
        exact absurd (hspells.unique hn) (by omega)
  · intro members lines hnames hlines
    rw [listOf_eq_ok]
    have hlist := literals_lines hnames hlines
    generalize literals lines.flatten = ls at hlist
    clear hlines
    induction hlist with
    | nil => exact .nil
    | @cons l m ls members hl _ ih =>
      refine .cons ⟨?_, hl.2⟩ (ih fun m' hm' => hnames m' (by simp [hm']))
      rw [hl.1, asciiString_ofString (hnames m (by simp)).2]

/-- The largest number in decimal, and one in hexadecimal with zeros, both cases and an ending. -/
theorem listOf_values_sample :
    listOf (Utf8.ofString "max = 18446744073709551615,\nkMask = 0X00fFuL,\n") =
      .ok [⟨"max", 0xFFFFFFFFFFFFFFFF⟩, ⟨"kMask", 255⟩] := by
  have hmax : Line ⟨"max", 0xFFFFFFFFFFFFFFFF⟩ (Utf8.ofString "max = 18446744073709551615,\n") :=
    ⟨Utf8.ofString "18446744073709551615", [], .decimal ⟨0, by decide +kernel⟩, by decide,
      by decide +kernel⟩
  have hmask : Line ⟨"kMask", 255⟩ (Utf8.ofString "kMask = 0X00fFuL,\n") :=
    ⟨Utf8.ofString "0X00fF", Utf8.ofString "uL", .hexadecimal (by decide) ⟨2, by decide +kernel⟩,
      by decide, by decide +kernel⟩
  have hnames : ∀ m ∈ [(⟨"max", 0xFFFFFFFFFFFFFFFF⟩ : Member), ⟨"kMask", 255⟩],
      IsName (Utf8.ofString m.name) := by
    simp only [List.forall_mem_cons, IsName]
    decide +kernel
  have hread := listOf_values.2 _ _ hnames (.cons hmax (.cons hmask .nil))
  rwa [show List.flatten [Utf8.ofString "max = 18446744073709551615,\n",
    Utf8.ofString "kMask = 0X00fFuL,\n"] =
      Utf8.ofString "max = 18446744073709551615,\nkMask = 0X00fFuL,\n" by decide +kernel] at hread

end Member

end GuestSync
