/-
# GuestSync.Proofs.TableReading -- tables are read back from their texts

A table is written without quotes. That loses nothing: the pattern for members takes octets of
words only for a name, so no name has a comma or a line feed, and the number behind the comma
is written in decimal, which every reader of decimals inverts up to the largest word. A reader
that drops the line of the columns, cuts each other line at its only comma and reads what is
behind it as a number gets the members that were written, in their order. So the content of a
table file says which members were selected.
-/
import GuestSync.Header.Csv
import GuestSync.Proofs.MemberValues
import GuestSync.Proofs.TableSelection

namespace GuestSync

namespace Csv

/-! ## Reading a table -/

/-- The lines of a text, all of which must end in a line feed. -/
def lines? (text : List Char) : Option (List (List Char)) :=
  let pieces := text.splitOn '\n'
  if pieces.getLast? = some [] then some pieces.dropLast else none

/-- The two fields of a line, parted by its only comma. -/
def fields? (line : List Char) : Option (List Char × List Char) :=
  match line.splitOn ',' with
  | [name, number] => some (name, number)
  | _ => none

/-- The member on a line, whose second field must be a decimal number below 2^64. -/
def member? (line : List Char) : Option Member := do
  let (name, number) ← fields? line
  let value ← Member.number? 10 Ascii.isDigit (Utf8.encode number)
  return ⟨String.ofList name, value⟩

/-- The members in a text, on all lines behind the first. -/
def read? (text : String) : Option (List Member) := do
  match ← lines? text.toList with
  | [] => none
  | _ :: rows => rows.mapM member?

/-! ## Lines -/

/-- The line for the names of the columns, without its end. -/
def columns : List Char := "Name,Value".toList

/-- The line for a member, without its end. -/
def line (m : Member) : List Char := m.name.toList ++ ',' :: Nat.toDigits 10 m.value.toNat

theorem row_toList (m : Member) : (row m).toList = line m ++ ['\n'] := by
  simp [row, line]

theorem render_toList (members : List Member) :
    (render members).toList = Lines.toText '\n' (columns :: members.map line) := by
  have hrows : (String.join (members.map row)).toList = Lines.toText '\n' (members.map line) := by
    induction members with
    | nil => rfl
    | cons m members ih =>
      rw [List.map_cons, String.join_cons, String.toList_append, ih, row_toList, List.map_cons,
        Lines.toText_cons, List.append_assoc]
      rfl
  rw [render, String.toList_append, hrows, Lines.toText_cons]
  rfl

theorem splitOn_toText {t : Char} {lines : List (List Char)} (h : ∀ line ∈ lines, t ∉ line) :
    (Lines.toText t lines).splitOn t = lines ++ [[]] := by
  induction lines with
  | nil => exact List.splitOn_nil t
  | cons line lines ih =>
    obtain ⟨hline, hlines⟩ := List.forall_mem_cons.mp h
    rw [Lines.toText_cons, List.splitOn_append_cons_self_of_not_mem hline, ih hlines]
    rfl

theorem lines?_toText {lines : List (List Char)} (h : ∀ line ∈ lines, '\n' ∉ line) :
    lines? (Lines.toText '\n' lines) = some lines := by
  rw [lines?, splitOn_toText h, List.getLast?_concat, if_pos rfl, List.dropLast_concat]

/-! ## Numbers -/

/-- The digits of a number are octets each. -/
theorem encode_toDigits (n : Nat) :
    Utf8.encode (Nat.toDigits 10 n) = Member.digitsOf 10 n := by
  have hascii : ∀ c ∈ Nat.toDigits 10 n, c.toNat < 0x80 := by
    intro c hc
    have hdigit := Nat.isDigit_of_mem_toDigits (by decide) (by decide) hc
    rw [Char.isDigit_iff_toNat] at hdigit
    have hnine : '9'.toNat = 57 := rfl
    omega
  unfold Member.digitsOf
  generalize Nat.toDigits 10 n = cs at hascii
  induction cs with
  | nil => rfl
  | cons c cs ih =>
    -- A character below 0x80 is written as the octet of its number.
    obtain ⟨hc, hcs⟩ := List.forall_mem_cons.mp hascii
    have hsplit : Utf8.encode (c :: cs) = Utf8.encodeChar c ++ Utf8.encode cs := rfl
    rw [hsplit, ih hcs, Utf8.encodeChar, if_pos hc]
    rfl

/-- What is written in decimal is read back. -/
theorem number?_toDigits (value : UInt64) :
    Member.number? 10 Ascii.isDigit (Utf8.encode (Nat.toDigits 10 value.toNat)) = some value := by
  obtain ⟨hne, hdigits, hvalue⟩ := Member.digitsOf_spec Member.isBase_ten value.toNat
  have hb : Member.IsBase (10 : UInt64).toNat Ascii.isDigit := Member.isBase_ten
  have hten : (10 : UInt64).toNat = 10 := rfl
  rw [encode_toDigits, Member.number?_eq hb hne hdigits, hten, hvalue, Member.word?_eq_some]

/-- Digits are neither commas nor line feeds. -/
theorem not_mem_toDigits {c : Char} (hc : c.isDigit = false) (n : Nat) :
    c ∉ Nat.toDigits 10 n := by
  intro hmem
  simp [Nat.isDigit_of_mem_toDigits (by decide) (by decide) hmem] at hc

/-! ## Members -/

/-- The name of a member needs no quotes. -/
structure Unquoted (m : Member) : Prop where
  comma : ',' ∉ m.name.toList
  lineFeed : '\n' ∉ m.name.toList

section Unquoted

variable {m : Member} {members members' : List Member}

theorem Unquoted.not_mem_line (h : Unquoted m) : '\n' ∉ line m := by
  simp only [line, List.mem_append, List.mem_cons, not_or]
  exact ⟨h.lineFeed, by decide, not_mem_toDigits (by decide) _⟩

/-- A line has one comma. -/
theorem Unquoted.count_line (h : Unquoted m) : (line m).count ',' = 1 := by
  rw [line, List.count_append, List.count_cons_self, List.count_eq_zero.mpr h.comma,
    List.count_eq_zero.mpr (not_mem_toDigits (by decide) _)]

theorem Unquoted.member?_line (h : Unquoted m) : member? (line m) = some m := by
  have hsplit : (line m).splitOn ',' = [m.name.toList, Nat.toDigits 10 m.value.toNat] := by
    rw [line, List.splitOn_append_cons_self_of_not_mem h.comma,
      List.splitOn_eq_singleton (not_mem_toDigits (by decide) _)]
  have hfields : fields? (line m) = some (m.name.toList, Nat.toDigits 10 m.value.toNat) := by
    rw [fields?, hsplit]
  rw [member?, hfields]
  show (Member.number? 10 Ascii.isDigit (Utf8.encode (Nat.toDigits 10 m.value.toNat))).bind _ = _
  rw [number?_toDigits, Option.bind_some, String.ofList_toList]
  rfl

theorem mapM_member?_line (h : ∀ m ∈ members, Unquoted m) :
    (members.map line).mapM member? = some members := by
  induction members with
  | nil => rfl
  | cons m members ih =>
    obtain ⟨hm, hmembers⟩ := List.forall_mem_cons.mp h
    rw [List.map_cons, List.mapM_cons, hm.member?_line, ih hmembers]
    rfl

/-- **A table is read back** if its names need no quotes. -/
theorem read?_render (h : ∀ m ∈ members, Unquoted m) : read? (render members) = some members := by
  have hlines : ∀ l ∈ columns :: members.map line, '\n' ∉ l := by
    refine List.forall_mem_cons.mpr ⟨by decide, ?_⟩
    intro l hl
    obtain ⟨m, hm, rfl⟩ := List.mem_map.mp hl
    exact (h m hm).not_mem_line
  rw [read?, render_toList, lines?_toText hlines]
  exact mapM_member?_line h

end Unquoted

end Csv

/-! ## The members of a header -/

namespace Member

theorem not_mem_asciiString {octets : Bytes} (h : IsName octets) {c : Char}
    (hc : ∀ b : UInt8, Ascii.isWord b → Char.ofNat b.toNat ≠ c) :
    c ∉ (asciiString octets).toList := by
  rw [asciiString, String.toList_ofList]
  intro hmem
  obtain ⟨b, hb, heq⟩ := List.mem_map.mp hmem
  exact hc b (h.2 b hb) heq

theorem unquoted_of_isName {octets : Bytes} (h : IsName octets) (value : UInt64) :
    Csv.Unquoted ⟨asciiString octets, value⟩ :=
  ⟨not_mem_asciiString h (by decide +kernel), not_mem_asciiString h (by decide +kernel)⟩

/-- No name that is found in a header needs quotes. -/
theorem unquoted_of_listOf {header : Bytes} {members : List Member}
    (h : listOf header = .ok members) : ∀ m ∈ members, Csv.Unquoted m := by
  intro m hm
  obtain ⟨hlength, hread⟩ := List.forall₂_iff_get.mp (listOf_eq_ok.mp h)
  obtain ⟨i, hi, rfl⟩ := List.getElem_of_mem hm
  -- What the name is made of was taken by the pattern, as octets of words.
  have hname := (hread i (hlength ▸ hi) hi).1
  have hunquoted := unquoted_of_isName (literals_parts (List.get_mem _ ⟨i, hlength ▸ hi⟩)).1
    (members.get ⟨i, hi⟩).value
  rw [← hname] at hunquoted
  exact hunquoted

end Member

namespace Table

/-- A table selects among the members of its header. -/
theorem mem_of_select {t : Table} {members rows : List Member} (h : t.select members = .ok rows) :
    ∀ m ∈ rows, m ∈ members := by
  intro m hm
  unfold select at h
  dsimp only at h
  split at h
  · rw [Member.slice_eq] at h
    split_ifs at h
    obtain rfl := Except.ok.inj h
    exact List.mem_of_mem_filter (List.mem_of_mem_take (List.mem_of_mem_drop hm))
  · obtain rfl := Except.ok.inj h
    exact List.mem_of_mem_filter hm

end Table

/-- Texts with the same octets are the same. -/
theorem Utf8.ofString_injective : Function.Injective Utf8.ofString := by
  intro s s' h
  have hread := Utf8.decode_encode s.toList
  rw [show Utf8.encode s.toList = Utf8.encode s'.toList from h, Utf8.decode_encode] at hread
  exact (String.toList_inj.mp (Option.some.inj hread)).symm

namespace Csv

/-- The members are those that a table selects in a header. -/
def Selected (rows : List Member) : Prop :=
  ∃ (header : Bytes) (members : List Member) (t : Table),
    Member.listOf header = .ok members ∧ t.select members = .ok rows

theorem Selected.unquoted {rows : List Member} (h : Selected rows) : ∀ m ∈ rows, Unquoted m := by
  obtain ⟨header, members, t, hmembers, hrows⟩ := h
  intro m hm
  exact Member.unquoted_of_listOf hmembers m (Table.mem_of_select hrows m hm)

/-- **Writing a table loses nothing.** Let members be selected by any table in any header whose
numbers all fit. Their text has the line of the columns and one line for each of them, all
ended by a line feed; the line of a member is its name, a comma and its number in decimal, and
there is no other comma and no line feed in it. Dropping the first line, cutting the others at
their commas and reading the numbers gives these members, in order and up to the largest
number. So two selections that lead to the same file are the same. -/
theorem render_lossless :
    (∀ rows, Selected rows →
      (∃ lines, (render rows).toList = Lines.toText '\n' ("Name,Value".toList :: lines) ∧
        List.Forall₂ (fun m line =>
          line = (m.name ++ "," ++ toString m.value.toNat).toList ∧ line.count ',' = 1 ∧
            '\n' ∉ line) rows lines) ∧
      read? (render rows) = some rows) ∧
    ∀ rows rows', Selected rows → Selected rows' →
      Utf8.ofString (render rows) = Utf8.ofString (render rows') → rows = rows' := by
  constructor
  · intro rows hrows
    refine ⟨⟨rows.map line, render_toList rows, ?_⟩, read?_render hrows.unquoted⟩
    rw [List.forall₂_map_right_iff, List.forall₂_same]
    intro m hm
    have hunquoted := hrows.unquoted m hm
    exact ⟨by simp [line], hunquoted.count_line, hunquoted.not_mem_line⟩
  · intro rows rows' hrows hrows' hsame
    have hback := read?_render hrows.unquoted
    rw [Utf8.ofString_injective hsame, read?_render hrows'.unquoted] at hback
    exact (Option.some.inj hback).symm

end Csv

namespace Sample

/-- A header with members of two tables, the largest number among them. -/
def constants : Bytes :=
  Utf8.ofString ("smRoman = 0,\r\nsmUninterp = 0X20L,\n" ++
    "verUS = 18446744073709551615,\rverGreenland=073u")

/-- The members of its first table. -/
def scripts : List Member := [⟨"smRoman", 0⟩, ⟨"smUninterp", 32⟩]

/-- The members of its second table. -/
def regions : List Member := [⟨"verUS", 0xFFFFFFFFFFFFFFFF⟩, ⟨"verGreenland", 73⟩]

end Sample

/-- The largest number is read back, and the files of the two tables differ. -/
theorem Csv.render_lossless_sample :
    Csv.Selected Sample.scripts ∧ Csv.Selected Sample.regions ∧
      Csv.read? "Name,Value\nverUS,18446744073709551615\nverGreenland,73\n" =
        some Sample.regions ∧
      Utf8.ofString (Csv.render Sample.scripts) ≠ Utf8.ofString (Csv.render Sample.regions) := by
  have hmembers : Member.listOf Sample.constants = .ok (Sample.scripts ++ Sample.regions) := by
    decide +kernel
  have hscripts : Csv.Selected Sample.scripts :=
    ⟨_, _, ⟨"script.csv", "sm", some ("smRoman", "smUninterp")⟩, hmembers, by decide +kernel⟩
  have hregions : Csv.Selected Sample.regions :=
    ⟨_, _, ⟨"region.csv", "ver", some ("verUS", "verGreenland")⟩, hmembers, by decide +kernel⟩
  have htext : Csv.render Sample.regions =
      "Name,Value\nverUS,18446744073709551615\nverGreenland,73\n" := by decide +kernel
  refine ⟨hscripts, hregions, ?_, ?_⟩
  · rw [← htext]
    exact (Csv.render_lossless.1 _ hregions).2
  · intro hsame
    exact absurd (Csv.render_lossless.2 _ _ hscripts hregions hsame) (by decide)

end GuestSync
