/-
# GuestSync.Proofs.TextConversion -- what becomes of any text content

The local side holds texts in UTF-8 and the guest's in Mac Roman. `Direction.Spells` says
which text a content is on the side where a direction starts: the octets of a `String`
there, octets that the code page reads as the text here. A conversion delivers the
content that spells, on the other side, the lines of the text with the line end of that
side. A push fails if the content is no UTF-8, or else if a character of its lines is not
on the code page, and there is no other failure.
-/
import GuestSync.Convert
import GuestSync.Proofs.LineDecomposition

namespace GuestSync

/-! ## UTF-8 as the octets of strings -/

namespace Utf8

theorem encodeChar_eq (c : Char) : encodeChar c = String.utf8EncodeChar c := by
  have hvalid := toNat_valid c
  have hnumber : c.val.toNat = c.toNat := rfl
  unfold encodeChar String.utf8EncodeChar
  dsimp only
  rw [hnumber]
  generalize c.toNat = n at hvalid
  -- The limits are the same; the language also cuts the leading bits off, which are zero.
  by_cases h1 : n < 0x80
  · rw [if_pos h1, if_pos (by omega)]
  by_cases h2 : n < 0x800
  · have hlead : n / 64 % 0x20 = n / 0x40 := by omega
    rw [if_neg h1, if_pos h2, if_neg (by omega), if_pos (by omega), hlead, Nat.add_comm,
      Nat.add_comm 0x80]
  by_cases h3 : n < 0x10000
  · have hlead : n / 4096 % 0x10 = n / 0x1000 := by omega
    rw [if_neg h1, if_neg h2, if_pos h3, if_neg (by omega), if_neg (by omega), if_pos (by omega),
      hlead, Nat.add_comm, Nat.add_comm 0x80, Nat.add_comm 0x80]
  · have hlead : n / 262144 % 0x08 = n / 0x40000 := by omega
    rw [if_neg h1, if_neg h2, if_neg h3, if_neg (by omega), if_neg (by omega), if_neg (by omega),
      hlead, Nat.add_comm, Nat.add_comm 0x80, Nat.add_comm 0x80, Nat.add_comm 0x80]

/-- The octets of a string are its characters in UTF-8. -/
theorem octets_ofList (text : List Char) :
    (String.ofList text).toUTF8.data.toList = encode text := by
  have hchars : encode text = text.flatMap String.utf8EncodeChar :=
    congrArg (fun write => text.flatMap write) (funext encodeChar_eq)
  rw [hchars]
  exact List.toList_data_toByteArray

/-- What is read is the string that has these octets. -/
theorem decode_eq_some {content : Bytes} {s : String} :
    decode content = some s.toList ↔ s.toUTF8.data.toList = content := by
  have hs := octets_ofList s.toList
  rw [String.ofList_toList] at hs
  rw [hs]
  refine ⟨encode_of_decode, ?_⟩
  rintro rfl
  exact decode_encode s.toList

theorem decode_eq_none {content : Bytes} :
    decode content = none ↔ ∀ s : String, s.toUTF8.data.toList ≠ content := by
  constructor
  · intro hnone s hs
    simp [decode_eq_some.mpr hs] at hnone
  · intro hno
    by_contra hsome
    obtain ⟨text, htext⟩ := Option.ne_none_iff_exists'.mp hsome
    exact hno (String.ofList text) (decode_eq_some.mp (by rwa [String.toList_ofList]))

/-- What holds of the text that is read holds of the string with these octets. -/
theorem exists_decode_iff {content : Bytes} {P : List Char → Prop} :
    (∃ text, decode content = some text ∧ P text) ↔
      ∃ s : String, s.toUTF8.data.toList = content ∧ P s.toList := by
  constructor
  · rintro ⟨text, htext, hP⟩
    rw [← String.toList_ofList (l := text)] at htext hP
    exact ⟨String.ofList text, decode_eq_some.mp htext, hP⟩
  · rintro ⟨s, hs, hP⟩
    exact ⟨s.toList, decode_eq_some.mpr hs, hP⟩

end Utf8

/-! ## The code page -/

namespace MacRoman

/-- A character has no octet exactly if no octet is read as it. -/
theorem encodeChar_eq_none {c : Char} : encodeChar c = none ↔ ∀ b, decodeByte b ≠ c := by
  constructor
  · rintro hnone b rfl
    simp [encodeChar_decodeByte] at hnone
  · intro hnot
    by_contra hsome
    obtain ⟨b, hb⟩ := Option.ne_none_iff_exists'.mp hsome
    exact hnot b (decodeByte_encodeChar hb)

theorem encode_eq_some {text : List Char} {bs : Bytes} :
    encode text = some bs ↔ decode bs = text := by
  refine ⟨decode_encode, ?_⟩
  rintro rfl
  exact encode_decode bs

/-- A text cannot be written exactly if one of its characters cannot. -/
theorem encode_eq_none {text : List Char} :
    encode text = none ↔ ∃ c ∈ text, ∀ b, decodeByte b ≠ c := by
  induction text with
  | nil => simp [encode]
  | cons c r ih =>
    rw [List.exists_mem_cons_iff, ← ih, ← encodeChar_eq_none, encode, List.mapM_cons]
    cases encodeChar c with
    | none => simp
    | some b => cases h : encode r <;> simp_all [encode]

end MacRoman

/-! ## Lines -/

namespace Lines

/-- The lines have the characters of the text, line ends left out. -/
theorem flatten_ofText (text : List Char) :
    (ofText text).flatten = text.filter fun c => !isEnd c := by
  induction text using text_induction with
  | nil => rfl
  | newline r ih => simpa [ofText_newline, isEnd] using ih
  | crlf r ih => simpa [ofText_crlf, isEnd] using ih
  | ret r hr ih => simpa [ofText_return hr, isEnd] using ih
  | other c r hc ih =>
    rw [ofText_cons hc, List.filter_cons_of_pos (by simp [hc]), ← ih]
    cases ofText r <;> rfl

theorem mem_toText {t c : Char} {lines : List (List Char)} :
    c ∈ toText t lines ↔ c ∈ lines.flatten ∨ lines ≠ [] ∧ c = t := by
  induction lines with
  | nil => simp [toText]
  | cons line lines ih =>
    rw [toText_cons, List.mem_append, List.mem_cons, ih]
    simp only [List.flatten_cons, List.mem_append]
    tauto

/-- Each line of a text is ended once. -/
theorem count_toText {t : Char} (ht : isEnd t = true) {lines : List (List Char)}
    (h : ∀ line ∈ lines, ∀ c ∈ line, isEnd c = false) :
    (toText t lines).count t = lines.length := by
  induction lines with
  | nil => rfl
  | cons line lines ih =>
    obtain ⟨hline, hlines⟩ := List.forall_mem_cons.mp h
    have hzero : line.count t = 0 := by
      rw [List.count_eq_zero]
      intro hmem
      simp [hline t hmem] at ht
    rw [toText_cons, List.count_append, hzero, List.count_cons_self, ih hlines, Nat.zero_add,
      List.length_cons]

theorem toText_eq_nil {t : Char} {lines : List (List Char)} : toText t lines = [] ↔ lines = [] := by
  cases lines <;> simp [toText]

theorem getLast?_toText {t : Char} {lines : List (List Char)} (h : lines ≠ []) :
    (toText t lines).getLast? = some t := by
  obtain ⟨init, line, rfl⟩ := List.eq_nil_or_concat lines |>.resolve_left h
  simp [toText]

/-- The lines of a text cannot be written for the guest exactly if a character of the text
that ends no line is not on the code page. -/
theorem encode_toText_eq_none (text : List Char) :
    MacRoman.encode (toText '\r' (ofText text)) = none ↔
      ∃ c ∈ text, isEnd c = false ∧ ∀ b, MacRoman.decodeByte b ≠ c := by
  rw [MacRoman.encode_eq_none]
  constructor
  · rintro ⟨c, hmem, hc⟩
    rcases mem_toText.mp hmem with hline | ⟨-, rfl⟩
    · rw [flatten_ofText, List.mem_filter] at hline
      exact ⟨c, hline.1, by simpa using hline.2, hc⟩
    · exact absurd (by decide) (hc Ascii.carriageReturn)
  · rintro ⟨c, hmem, hend, hc⟩
    refine ⟨c, mem_toText.mpr (.inl ?_), hc⟩
    rw [flatten_ofText, List.mem_filter]
    exact ⟨hmem, by simp [hend]⟩

end Lines

/-! ## What a content spells -/

/-- The octet that ends lines on the side that a direction leads to. -/
def Direction.lineEnd : Direction → UInt8
  | .push => Ascii.carriageReturn
  | .pull => Ascii.lineFeed

/-- The character of that octet. -/
def Direction.lineEndChar : Direction → Char
  | .push => '\r'
  | .pull => '\n'

/-- The content is the text as the side holds it where the direction starts. -/
def Direction.Spells : Direction → Bytes → List Char → Prop
  | .push, content, text => (String.ofList text).toUTF8.data.toList = content
  | .pull, content, text => MacRoman.decode content = text

namespace Direction

theorem isEnd_lineEndChar (direction : Direction) : Lines.isEnd direction.lineEndChar = true := by
  cases direction <;> rfl

theorem spells_push {content : Bytes} {text : List Char} :
    Spells .push content text ↔ Utf8.decode content = some text := by
  rw [Spells, ← Utf8.decode_eq_some, String.toList_ofList]

variable {direction : Direction} {content : Bytes} {text : List Char}

/-- A content and its text have the same line ends: as many of each kind, and the same at
the end. -/
theorem Spells.lineEnds (h : direction.Spells content text) (other : Direction) :
    content.count other.lineEnd = text.count other.lineEndChar ∧
      (content.getLast? = some other.lineEnd ↔ text.getLast? = some other.lineEndChar) := by
  cases direction with
  | push =>
    obtain rfl : Utf8.encode text = content := (Utf8.octets_ofList text).symm.trans h
    have hend : LineEnds.chars.isEnd other.lineEndChar = true := by cases other <;> rfl
    have hwrite : Utf8.encodeChar other.lineEndChar = [other.lineEnd] := by
      cases other <;> decide
    exact ⟨Utf8.carried_lineEnds.count hend hwrite text,
      Utf8.carried_lineEnds.getLast?_flatMap_iff hend hwrite text⟩
  | pull =>
    obtain rfl : content.flatMap (fun b => [MacRoman.decodeByte b]) = text :=
      List.map_eq_flatMap.symm.trans h
    have hend : LineEnds.octets.isEnd other.lineEnd = true := by cases other <;> rfl
    have hwrite : [MacRoman.decodeByte other.lineEnd] = [other.lineEndChar] := by
      cases other <;> decide
    exact ⟨(MacRoman.carried_lineEnds.count hend hwrite content).symm,
      (MacRoman.carried_lineEnds.getLast?_flatMap_iff hend hwrite content).symm⟩

theorem Spells.eq_nil_iff (h : direction.Spells content text) : content = [] ↔ text = [] := by
  cases direction with
  | push =>
    obtain rfl : Utf8.encode text = content := (Utf8.octets_ofList text).symm.trans h
    exact Utf8.carried_lineEnds.flatMap_eq_nil
  | pull =>
    obtain rfl : MacRoman.decode content = text := h
    simp [MacRoman.decode]

/-- A content spells one text at most. -/
theorem Spells.unique {text' : List Char} (h : direction.Spells content text)
    (h' : direction.Spells content text') : text = text' := by
  cases direction with
  | push =>
    rw [spells_push] at h h'
    exact Option.some.inj (h.symm.trans h')
  | pull => exact h.symm.trans h'

/-- Where lines without line ends are all ended in one way, the line ends of the content are
those of the lines. -/
theorem Spells.of_lines {side : Direction} {lines : List (List Char)}
    (h : side.Spells content (Lines.toText direction.lineEndChar lines))
    (hlines : ∀ line ∈ lines, ∀ c ∈ line, Lines.isEnd c = false) :
    content.count direction.lineEnd = lines.length ∧
      direction.opposite.lineEnd ∉ content ∧ (content = [] ↔ lines = []) ∧
      (lines ≠ [] → content.getLast? = some direction.lineEnd) := by
  obtain ⟨hcount, hlast⟩ := h.lineEnds direction
  obtain ⟨hother, -⟩ := h.lineEnds direction.opposite
  refine ⟨?_, ?_, h.eq_nil_iff.trans Lines.toText_eq_nil, ?_⟩
  · rw [hcount, Lines.count_toText direction.isEnd_lineEndChar hlines]
  · rw [← List.count_eq_zero, hother, List.count_eq_zero, Lines.mem_toText]
    rintro (hmem | ⟨-, hsame⟩)
    · obtain ⟨line, hline, hc⟩ := List.mem_flatten.mp hmem
      have hend := direction.opposite.isEnd_lineEndChar
      simp [hlines line hline _ hc] at hend
    · cases direction <;> simp [lineEndChar, opposite] at hsame
  · intro hne
    exact hlast.mpr (Lines.getLast?_toText hne)

end Direction

/-! ## Conversions -/

variable {direction : Direction} {content output : Bytes}

theorem convertText_eq_ok :
    convertText direction content = .ok output ↔ ∃ text, direction.Spells content text ∧
      direction.opposite.Spells output
        (Lines.toText direction.lineEndChar (Lines.ofText text)) := by
  cases direction with
  | push =>
    rw [convertText_push_eq_ok]
    refine exists_congr fun text => ?_
    rw [Direction.spells_push, MacRoman.encode_eq_some]
    rfl
  | pull =>
    have hwrite : ∀ text, Direction.Spells .push output text ↔ Utf8.encode text = output := by
      intro text
      rw [Direction.Spells, Utf8.octets_ofList]
    simp only [convertText, Except.ok.injEq, Direction.opposite, hwrite]
    constructor
    · intro h
      exact ⟨_, rfl, h⟩
    · rintro ⟨text, rfl, h⟩
      exact h

theorem convertText_eq_unreadable :
    convertText direction content = .error .unreadable ↔
      direction = .push ∧ Utf8.decode content = none := by
  cases direction with
  | push =>
    unfold convertText
    dsimp only
    cases Utf8.decode content with
    | none => simp
    | some text =>
      dsimp only
      cases MacRoman.encode (Lines.toText '\r' (Lines.ofText text)) <;> simp
  | pull => simp [convertText]

theorem convertText_eq_unwritable :
    convertText direction content = .error .unwritable ↔
      direction = .push ∧ ∃ text, Utf8.decode content = some text ∧
        ∃ c ∈ text, Lines.isEnd c = false ∧ ∀ b, MacRoman.decodeByte b ≠ c := by
  cases direction with
  | push =>
    unfold convertText
    dsimp only
    cases Utf8.decode content with
    | none => simp
    | some text =>
      simp only [true_and, Option.some.injEq, exists_eq_left', ← Lines.encode_toText_eq_none]
      cases MacRoman.encode (Lines.toText '\r' (Lines.ofText text)) <;> simp
  | pull => simp [convertText]

/-- **Conversions of any text.** A content is unreadable exactly if it is pushed and no string
has its octets, so also if it has an overlong form, a surrogate, a number above 10FFFF or
a part of a character. It is unwritable exactly if it is pushed, is a string, and a
character of that string other than CR and LF has no octet on the code page. Otherwise the
output is what spells the lines of the text, each with the line end of the other side:
`d` is the only proper decomposition. So the output has as many line ends as the text has
lines and none of the other kind, and it is empty if the content is, or else ends in a
line end. -/
theorem text_conversion_exact (direction : Direction) (content : Bytes) :
    (convertText direction content = .error .unreadable ↔
      direction = .push ∧ ∀ s : String, s.toUTF8.data.toList ≠ content) ∧
    (convertText direction content = .error .unwritable ↔
      direction = .push ∧ ∃ s : String, s.toUTF8.data.toList = content ∧
        ∃ c ∈ s.toList, Lines.isEnd c = false ∧ ∀ b, MacRoman.decodeByte b ≠ c) ∧
    (∀ output, convertText direction content = .ok output ↔
      ∃ d : Lines.Decomposition, d.Proper ∧ direction.Spells content d.text ∧
        direction.opposite.Spells output (Lines.toText direction.lineEndChar d.lines)) ∧
    ∀ output, convertText direction content = .ok output →
      ∀ d : Lines.Decomposition, d.Proper → direction.Spells content d.text →
        output.count direction.lineEnd = d.lines.length ∧
        direction.opposite.lineEnd ∉ output ∧
        (output = [] ↔ content = []) ∧
        (content ≠ [] → output.getLast? = some direction.lineEnd) := by
  have hlines : ∀ d : Lines.Decomposition, d.Proper → Lines.ofText d.text = d.lines := by
    intro d hd
    rw [← Lines.lines_decompose, Lines.decompose_text hd]
  refine ⟨?_, ?_, ?_, ?_⟩
  · rw [convertText_eq_unreadable, Utf8.decode_eq_none]
  · rw [convertText_eq_unwritable, Utf8.exists_decode_iff]
  · intro output
    rw [convertText_eq_ok]
    constructor
    · rintro ⟨text, hsource, htarget⟩
      refine ⟨Lines.decompose text, Lines.proper_decompose text, ?_, ?_⟩
      · rwa [Lines.text_decompose]
      · rwa [Lines.lines_decompose]
    · rintro ⟨d, hd, hsource, htarget⟩
      exact ⟨d.text, hsource, by rwa [hlines d hd]⟩
  · intro output hok d hd hsource
    obtain ⟨text, hsource', htarget⟩ := convertText_eq_ok.mp hok
    obtain rfl := hsource.unique hsource'
    obtain ⟨hcount, hother, hnil, hlast⟩ := htarget.of_lines Lines.isEnd_of_mem_ofText
    rw [Lines.ofText_eq_nil, ← hsource.eq_nil_iff] at hnil
    refine ⟨hlines d hd ▸ hcount, hother, hnil, fun hne => hlast ?_⟩
    rwa [Ne, Lines.ofText_eq_nil, ← hsource.eq_nil_iff]

/-- An overlong form, a surrogate, a number above 10FFFF and a part of a character are the
octets of no string; a Chinese character is on no octet of the code page; and a pushed text
with an empty line and without an end of its last line has three lines. -/
theorem text_conversion_exact_sample :
    (∀ bad ∈ [[0xC0, 0x80], [0xED, 0xA0, 0x80], [0xF4, 0x90, 0x80, 0x80], [0xE2, 0x82]],
      ∀ s : String, s.toUTF8.data.toList ≠ bad) ∧
    convertText .push (Utf8.ofString "漢\n") = .error .unwritable ∧
    convertText .push (Utf8.ofString "a\r\n\rü") = .ok [0x61, 0x0D, 0x0D, 0x9F, 0x0D] ∧
    (Lines.decompose "a\r\n\rü".toList).lines.length = 3 := by
  have hrefused : ∀ bad ∈ [[0xC0, 0x80], [0xED, 0xA0, 0x80], [0xF4, 0x90, 0x80, 0x80],
      [0xE2, 0x82]], convertText .push bad = .error .unreadable := by decide +kernel
  have hok : convertText .push (Utf8.ofString "a\r\n\rü") = .ok [0x61, 0x0D, 0x0D, 0x9F, 0x0D] := by
    decide +kernel
  have hspells : Direction.push.Spells (Utf8.ofString "a\r\n\rü")
      (Lines.decompose "a\r\n\rü".toList).text := by
    rw [Lines.text_decompose, Direction.spells_push]
    exact Utf8.decode_encode _
  obtain ⟨hcount, -⟩ := (text_conversion_exact .push _).2.2.2 _ hok _
    (Lines.proper_decompose _) hspells
  refine ⟨?_, ?_, hok, hcount.symm⟩
  · intro bad hbad
    exact ((text_conversion_exact .push bad).1.mp (hrefused bad hbad)).2
  · refine (text_conversion_exact .push _).2.1.mpr ⟨rfl, "漢\n", ?_, '漢', ?_, ?_, ?_⟩ <;>
      decide +kernel

end GuestSync
