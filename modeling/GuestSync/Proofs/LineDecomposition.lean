/-
# GuestSync.Proofs.LineDecomposition -- a text and its lines with their ends

A text is made up of lines that have ends and of a tail that has none. Such a
`Decomposition` is proper if there is no line end inside a line or in the tail and no
carriage return that ends a line has a line feed right behind it; without the second
condition CR LF could be read as one end or as two. Every text has exactly one proper
decomposition, `decompose` finds it, and the lines in it are those of `ofText`.

The scan of the octets finds the same lines. It cuts only between characters, because
it cuts at the octets of line ends and no other character has such an octet.
-/
import GuestSync.Text.Lines
import GuestSync.Proofs.TextRoundTrip

namespace GuestSync.Lines

/-! ## Decompositions -/

/-- The three ways to end a line. -/
inductive Terminator where
  | pair
  | carriageReturn
  | lineFeed
  deriving DecidableEq, Repr

/-- A line end as it is written. -/
def Terminator.symbols {α : Type} (ends : LineEnds α) : Terminator → List α
  | .pair => [ends.carriageReturn, ends.lineFeed]
  | .carriageReturn => [ends.carriageReturn]
  | .lineFeed => [ends.lineFeed]

/-- A line and the end that it has. -/
structure Ended where
  line : List Char
  terminator : Terminator
  deriving DecidableEq, Repr

/-- The line with its end. -/
def Ended.text (p : Ended) : List Char := p.line ++ p.terminator.symbols .chars

/-- Lines with their ends, and what stands behind the last end. -/
structure Decomposition where
  ended : List Ended
  tail : List Char
  deriving DecidableEq, Repr

namespace Decomposition

/-- The text that is decomposed. -/
def text (d : Decomposition) : List Char := d.ended.flatMap Ended.text ++ d.tail

/-- The lines, the tail among them if it is not empty. -/
def lines (d : Decomposition) : List (List Char) :=
  d.ended.map Ended.line ++ if d.tail = [] then [] else [d.tail]

/-- There is no line end inside a line or in the tail. -/
structure Clean (d : Decomposition) : Prop where
  ended : ∀ p ∈ d.ended, ∀ c ∈ p.line, isEnd c = false
  tail : ∀ c ∈ d.tail, isEnd c = false

/-- No carriage return that ends a line has a line feed right behind it in the text. -/
def Apart (d : Decomposition) : Prop :=
  ∀ before p after, d.ended = before ++ p :: after → p.terminator = .carriageReturn →
    (text ⟨after, d.tail⟩).head? ≠ some '\n'

/-- A clean decomposition in which no two line ends could be one. -/
structure Proper (d : Decomposition) : Prop extends d.Clean where
  apart : d.Apart

/-- No line that ends in a carriage return has an empty line behind it that ends in a
line feed. -/
def Parted (d : Decomposition) : Prop :=
  d.ended.IsChain fun p q => ¬ (p.terminator = .carriageReturn ∧ q = ⟨[], .lineFeed⟩)

/-- A line with its end in front. -/
def cons (p : Ended) (d : Decomposition) : Decomposition := ⟨p :: d.ended, d.tail⟩

/-- A character in front of the first line. -/
def push (c : Char) : Decomposition → Decomposition
  | ⟨[], tail⟩ => ⟨[], c :: tail⟩
  | ⟨p :: r, tail⟩ => ⟨⟨c :: p.line, p.terminator⟩ :: r, tail⟩

/-- The cases of a decomposition by its first line. -/
theorem ended_induction {P : Decomposition → Prop} (tail : ∀ t, P ⟨[], t⟩)
    (cons : ∀ p d, P d → P (d.cons p)) : ∀ d, P d
  | ⟨[], t⟩ => tail t
  | ⟨p :: r, t⟩ => cons p ⟨r, t⟩ (ended_induction tail cons ⟨r, t⟩)

@[simp] theorem text_cons (p : Ended) (d : Decomposition) : (d.cons p).text = p.text ++ d.text := by
  simp [text, cons]

@[simp] theorem lines_cons (p : Ended) (d : Decomposition) :
    (d.cons p).lines = p.line :: d.lines := rfl

@[simp] theorem text_push (c : Char) (d : Decomposition) : (d.push c).text = c :: d.text := by
  induction d using ended_induction with
  | tail t => rfl
  | cons p d _ => rfl

/-- A character goes to the front of the first line, which is there then. -/
theorem lines_push (c : Char) (d : Decomposition) :
    (d.push c).lines = (c :: d.lines.headD []) :: d.lines.tail := by
  induction d using ended_induction with
  | tail t => by_cases h : t = [] <;> simp [lines, push, h]
  | cons p d _ => rfl

theorem proper_nil {tail : List Char} : Proper ⟨[], tail⟩ ↔ ∀ c ∈ tail, isEnd c = false := by
  refine ⟨fun h => h.tail, fun h => ⟨⟨by simp, h⟩, ?_⟩⟩
  intro before p after heq
  simp at heq

theorem proper_cons {p : Ended} {d : Decomposition} :
    (d.cons p).Proper ↔ (∀ c ∈ p.line, isEnd c = false) ∧
      (p.terminator = .carriageReturn → d.text.head? ≠ some '\n') ∧ d.Proper := by
  constructor
  · intro h
    refine ⟨h.ended p List.mem_cons_self, h.apart [] p d.ended rfl, ⟨?_, h.tail⟩, ?_⟩
    · exact fun q hq => h.ended q (List.mem_cons_of_mem p hq)
    · intro before q after heq
      exact h.apart (p :: before) q after (congrArg (p :: ·) heq)
  · rintro ⟨hline, hnext, h⟩
    refine ⟨⟨List.forall_mem_cons.mpr ⟨hline, h.ended⟩, h.tail⟩, ?_⟩
    intro before q after heq hq
    cases before with
    | nil =>
      obtain ⟨rfl, rfl⟩ : p = q ∧ d.ended = after := by simpa [cons] using heq
      exact hnext hq
    | cons b before =>
      obtain ⟨-, hrest⟩ : p = b ∧ d.ended = before ++ q :: after := by simpa [cons] using heq
      exact h.apart before q after hrest hq

theorem Proper.push {c : Char} (hc : isEnd c = false) {d : Decomposition} (h : d.Proper) :
    (d.push c).Proper := by
  induction d using ended_induction with
  | tail t => exact proper_nil.mpr (List.forall_mem_cons.mpr ⟨hc, proper_nil.mp h⟩)
  | cons p d _ =>
    obtain ⟨hline, hrest⟩ := proper_cons.mp h
    exact proper_cons.mpr ⟨List.forall_mem_cons.mpr ⟨hc, hline⟩, hrest⟩

/-- In clean lines only an empty line that ends in a line feed starts with one. -/
theorem Clean.apart {d : Decomposition} (h : d.Clean) (hparted : d.Parted) : d.Apart := by
  intro before p after heq hp hhead
  rw [Parted, heq] at hparted
  cases after with
  | nil =>
    have hend := h.tail '\n' (List.mem_of_head? (by simpa [text] using hhead))
    simp [isEnd] at hend
  | cons q after =>
    obtain ⟨line, t⟩ := q
    cases line with
    | nil =>
      obtain ⟨-, hpq, -⟩ := List.isChain_append_cons_cons.mp hparted
      have ht : t ≠ .lineFeed := by
        rintro rfl
        exact hpq ⟨hp, rfl⟩
      cases t with
      | pair | carriageReturn => simp [text, Ended.text, Terminator.symbols, LineEnds.chars] at hhead
      | lineFeed => exact ht rfl
    | cons c line =>
      obtain rfl : c = '\n' := by simpa [text, Ended.text] using hhead
      have hend := h.ended ⟨'\n' :: line, t⟩ (by simp [heq]) '\n' (by simp)
      simp [isEnd] at hend

end Decomposition

/-! ## The proper decomposition of a text -/

open Decomposition

/-- The lines of a text with their ends. -/
def decompose : List Char → Decomposition
  | [] => ⟨[], []⟩
  | '\n' :: r => (decompose r).cons ⟨[], .lineFeed⟩
  | '\r' :: '\n' :: r => (decompose r).cons ⟨[], .pair⟩
  | '\r' :: r => (decompose r).cons ⟨[], .carriageReturn⟩
  | c :: r => (decompose r).push c

/-- A line end at the start of a text ends an empty line. -/
theorem decompose_terminator {t : Terminator} {r : List Char}
    (h : t = .carriageReturn → r.head? ≠ some '\n') :
    decompose (t.symbols .chars ++ r) = (decompose r).cons ⟨[], t⟩ := by
  cases t with
  | pair | lineFeed => rfl
  | carriageReturn =>
    show decompose ('\r' :: r) = _
    rw [decompose]
    rintro r' rfl
    exact h rfl rfl

theorem decompose_other {c : Char} (hc : isEnd c = false) (r : List Char) :
    decompose (c :: r) = (decompose r).push c := by
  simp only [isEnd, Bool.or_eq_false_iff, beq_eq_false_iff_ne] at hc
  rw [decompose]
  · exact hc.1
  · exact fun _ h _ => hc.2 h
  · exact hc.2

theorem decompose_return {r : List Char} (h : r.head? ≠ some '\n') :
    decompose ('\r' :: r) = (decompose r).cons ⟨[], .carriageReturn⟩ :=
  decompose_terminator (t := .carriageReturn) fun _ => h

theorem text_decompose (text : List Char) : (decompose text).text = text := by
  induction text using text_induction with
  | nil => rfl
  | newline r ih | crlf r ih => simp [decompose, ih, Ended.text, Terminator.symbols, LineEnds.chars]
  | ret r hr ih => simp [decompose_return hr, ih, Ended.text, Terminator.symbols, LineEnds.chars]
  | other c r hc ih => rw [decompose_other hc, text_push, ih]

theorem lines_decompose (text : List Char) : (decompose text).lines = ofText text := by
  induction text using text_induction with
  | nil => rfl
  | newline r ih => rw [decompose, lines_cons, ih, ofText_newline]
  | crlf r ih => rw [decompose, lines_cons, ih, ofText_crlf]
  | ret r hr ih => rw [decompose_return hr, lines_cons, ih, ofText_return hr]
  | other c r hc ih => rw [decompose_other hc, lines_push, ih, ofText_cons hc]

theorem proper_decompose (text : List Char) : (decompose text).Proper := by
  induction text using text_induction with
  | nil => exact proper_nil.mpr (by simp)
  | newline r ih | crlf r ih => exact proper_cons.mpr ⟨by simp, by simp, ih⟩
  | ret r hr ih =>
    rw [decompose_return hr]
    exact proper_cons.mpr ⟨by simp, fun _ => by rwa [text_decompose], ih⟩
  | other c r hc ih =>
    rw [decompose_other hc]
    exact ih.push hc

/-- A text without line ends is all tail. -/
theorem decompose_tail {tail : List Char} (h : ∀ c ∈ tail, isEnd c = false) :
    decompose tail = ⟨[], tail⟩ := by
  induction tail with
  | nil => rfl
  | cons c r ih =>
    obtain ⟨hc, hr⟩ := List.forall_mem_cons.mp h
    rw [decompose_other hc, ih hr]
    rfl

/-- A line with its end is taken off the front of a text. -/
theorem decompose_ended {p : Ended} (hline : ∀ c ∈ p.line, isEnd c = false) {r : List Char}
    (hnext : p.terminator = .carriageReturn → r.head? ≠ some '\n') :
    decompose (p.text ++ r) = (decompose r).cons p := by
  obtain ⟨line, t⟩ := p
  simp only [Ended.text, List.append_assoc]
  dsimp only at hline hnext
  induction line with
  | nil => exact decompose_terminator hnext
  | cons c line ih =>
    obtain ⟨hc, hrest⟩ := List.forall_mem_cons.mp hline
    rw [List.cons_append, decompose_other hc, ih hrest]
    rfl

/-- What is put together from a proper decomposition is decomposed in the same way. -/
theorem decompose_text {d : Decomposition} (h : d.Proper) : decompose d.text = d := by
  induction d using ended_induction with
  | tail t => exact decompose_tail h.tail
  | cons p d ih =>
    obtain ⟨hline, hnext, hrest⟩ := proper_cons.mp h
    rw [text_cons, decompose_ended hline hnext, ih hrest]

/-! ## Cuts between characters -/

/-- A character starts with an octet that goes on with no other. -/
theorem head_encodeChar (c : Char) :
    ∃ b r, Utf8.encodeChar c = b :: r ∧ (b < 0x80 || 0xC0 ≤ b) = true := by
  have hvalid := Utf8.toNat_valid c
  have hstarts : ∀ n < 0x100, n < 0x80 ∨ 0xC0 ≤ n →
      (UInt8.ofNat n < 0x80 || 0xC0 ≤ UInt8.ofNat n) = true := by decide +kernel
  unfold Utf8.encodeChar
  dsimp only
  generalize c.toNat = n at hvalid
  split_ifs with h1 h2 h3
  · exact ⟨_, _, rfl, hstarts _ (by omega) (by omega)⟩
  · exact ⟨_, _, rfl, hstarts _ (by omega) (by omega)⟩
  · exact ⟨_, _, rfl, hstarts _ (by omega) (by omega)⟩
  · exact ⟨_, _, rfl, hstarts _ (by omega) (by omega)⟩

theorem isBoundary_encode (pre post : List Char) :
    isBoundary (Utf8.encode pre ++ Utf8.encode post) (Utf8.encode pre).length = true := by
  unfold isBoundary
  cases post with
  | nil => simp [Utf8.encode]
  | cons c r =>
    obtain ⟨b, bs, hb, hstart⟩ := head_encodeChar c
    have hhead : (Utf8.encode pre ++ Utf8.encode (c :: r))[(Utf8.encode pre).length]? = some b := by
      simp [Utf8.encode, hb]
    rw [hhead]
    exact hstart

/-- A cut in front of characters and behind them gives their octets. -/
theorem slice?_encode (pre line post : List Char) :
    slice? (Utf8.encode (pre ++ line ++ post)) (Utf8.encode pre).length
      (Utf8.encode (pre ++ line)).length = some (Utf8.encode line) := by
  have hstart : isBoundary (Utf8.encode (pre ++ line ++ post)) (Utf8.encode pre).length = true := by
    rw [List.append_assoc, Utf8.encode_append]
    exact isBoundary_encode pre (line ++ post)
  have hstop : isBoundary (Utf8.encode (pre ++ line ++ post))
      (Utf8.encode (pre ++ line)).length = true := by
    rw [Utf8.encode_append]
    exact isBoundary_encode (pre ++ line) post
  rw [slice?, if_pos ⟨by simp [Utf8.encode_append], hstart, hstop⟩]
  simp [Utf8.encode_append]

/-! ## The scan of the octets -/

section Scan

variable {octets line : Bytes} {start i : Nat}

/-- At the end of the octets what is left is a line, if there is something left. -/
theorem splitFrom_end (h : slice? octets start octets.length = some line)
    (hline : line.length = octets.length - start) :
    splitFrom octets start octets.length = some (if line = [] then [] else [line]) := by
  rw [splitFrom, dif_neg (Nat.lt_irrefl _), h]
  by_cases hstart : start < octets.length
  · rw [if_pos hstart, if_neg (List.ne_nil_of_length_pos (by omega))]
    rfl
  · rw [if_neg hstart, if_pos (List.eq_nil_of_length_eq_zero (by omega))]

theorem splitFrom_other {b : UInt8} (h : octets[i]? = some b)
    (hb : LineEnds.octets.isEnd b = false) :
    splitFrom octets start i = splitFrom octets start (i + 1) := by
  obtain ⟨hi, rfl⟩ := List.getElem?_eq_some_iff.mp h
  simp only [LineEnds.isEnd, LineEnds.octets, Bool.or_eq_false_iff, beq_eq_false_iff_ne] at hb
  rw [splitFrom, dif_pos hi, if_neg hb.2, if_neg hb.1]

/-- A line feed ends a line, and the next one starts behind it. -/
theorem splitFrom_lineFeed (h : octets[i]? = some Ascii.lineFeed)
    (hline : slice? octets start i = some line) :
    splitFrom octets start i = (splitFrom octets (i + 1) (i + 1)).map (line :: ·) := by
  obtain ⟨hi, hsymbol⟩ := List.getElem?_eq_some_iff.mp h
  rw [splitFrom, dif_pos hi, if_pos hsymbol, hline]
  cases splitFrom octets (i + 1) (i + 1) <;> rfl

/-- A carriage return ends a line, and the next one starts behind it or, if a line feed is
right behind it, behind that. -/
theorem splitFrom_return {next : Nat} (h : octets[i]? = some Ascii.carriageReturn)
    (hline : slice? octets start i = some line)
    (hnext : next = if octets[i + 1]? = some Ascii.lineFeed then i + 2 else i + 1) :
    splitFrom octets start i = (splitFrom octets next next).map (line :: ·) := by
  obtain ⟨hi, hsymbol⟩ := List.getElem?_eq_some_iff.mp h
  have hother : octets[i] ≠ Ascii.lineFeed := by
    rw [hsymbol]
    decide
  rw [splitFrom, dif_pos hi, if_neg hother, if_pos hsymbol, hline]
  dsimp only
  rw [← hnext]
  cases splitFrom octets next next <;> rfl

end Scan

/-- Octets that end no line are passed over. -/
theorem splitFrom_skip (start : Nat) {mid : Bytes}
    (h : ∀ b ∈ mid, LineEnds.octets.isEnd b = false) (pre post : Bytes) :
    splitFrom (pre ++ mid ++ post) start pre.length =
      splitFrom (pre ++ mid ++ post) start (pre ++ mid).length := by
  induction mid generalizing pre with
  | nil => simp
  | cons b mid ih =>
    obtain ⟨hb, hmid⟩ := List.forall_mem_cons.mp h
    rw [splitFrom_other (b := b) (by simp) hb]
    have hnext := ih hmid (pre ++ [b])
    simpa using hnext

/-- At a line end the line in front of it is cut out, and the next one starts behind it. -/
theorem splitFrom_terminator {t : Terminator} {pre post line : Bytes} {start : Nat}
    (hnext : t = .carriageReturn → post.head? ≠ some Ascii.lineFeed)
    (hline : slice? (pre ++ t.symbols .octets ++ post) start pre.length = some line) :
    splitFrom (pre ++ t.symbols .octets ++ post) start pre.length =
      (splitFrom (pre ++ t.symbols .octets ++ post) (pre ++ t.symbols .octets).length
        (pre ++ t.symbols .octets).length).map (line :: ·) := by
  rw [List.length_append]
  cases t with
  | pair =>
    refine splitFrom_return (by simp [Terminator.symbols, LineEnds.octets]) hline ?_
    rw [if_pos (by simp [Terminator.symbols, LineEnds.octets])]
    rfl
  | carriageReturn =>
    have hhead : (pre ++ Terminator.symbols .octets .carriageReturn ++ post)[pre.length + 1]? =
        post.head? := by
      simp [Terminator.symbols, List.getElem?_append_right, List.head?_eq_getElem?]
    refine splitFrom_return (by simp [Terminator.symbols, LineEnds.octets]) hline ?_
    rw [hhead, if_neg (hnext rfl)]
    rfl
  | lineFeed => exact splitFrom_lineFeed (by simp [Terminator.symbols, LineEnds.octets]) hline

/-- The characters of a line are passed over. -/
theorem splitFrom_line {line : List Char} (h : ∀ c ∈ line, isEnd c = false)
    (pre post : List Char) :
    splitFrom (Utf8.encode (pre ++ line ++ post)) (Utf8.encode pre).length
        (Utf8.encode pre).length =
      splitFrom (Utf8.encode (pre ++ line ++ post)) (Utf8.encode pre).length
        (Utf8.encode (pre ++ line)).length := by
  have hoctets : ∀ b ∈ Utf8.encode line, LineEnds.octets.isEnd b = false := by
    intro b hb
    obtain ⟨c, hc, hb⟩ := List.mem_flatMap.mp hb
    exact Utf8.isEnd_of_mem_encodeChar (by rw [chars_isEnd, h c hc]) b hb
  simp only [Utf8.encode_append]
  exact splitFrom_skip _ hoctets _ _

/-- The octets of a line end. -/
theorem encode_symbols (t : Terminator) :
    Utf8.encode (t.symbols .chars) = t.symbols .octets := by
  cases t <;> rfl

/-- The scan goes through one line and its end, and only then cuts. -/
theorem splitFrom_ended {p : Ended} (hline : ∀ c ∈ p.line, isEnd c = false) (pre : List Char)
    {post : List Char} (hnext : p.terminator = .carriageReturn → post.head? ≠ some '\n') :
    splitFrom (Utf8.encode (pre ++ p.text ++ post)) (Utf8.encode pre).length
        (Utf8.encode pre).length =
      (splitFrom (Utf8.encode (pre ++ p.text ++ post)) (Utf8.encode (pre ++ p.text)).length
        (Utf8.encode (pre ++ p.text)).length).map (Utf8.encode p.line :: ·) := by
  obtain ⟨line, t⟩ := p
  have htext : pre ++ Ended.text ⟨line, t⟩ = pre ++ line ++ t.symbols .chars := by
    rw [Ended.text, List.append_assoc]
  have hoctets : Utf8.encode (pre ++ line ++ t.symbols .chars ++ post) =
      Utf8.encode (pre ++ line) ++ t.symbols .octets ++ Utf8.encode post := by
    rw [Utf8.encode_append, Utf8.encode_append, encode_symbols]
  have hcut := slice?_encode pre line (t.symbols .chars ++ post)
  have hpass := splitFrom_line hline pre (t.symbols .chars ++ post)
  rw [← List.append_assoc, hoctets] at hcut hpass
  have hhead : t = .carriageReturn → (Utf8.encode post).head? ≠ some Ascii.lineFeed :=
    fun ht hlf => hnext ht (Utf8.carried_lineEnds.head?_write hlf)
  rw [htext, hoctets, hpass, splitFrom_terminator hhead hcut, Utf8.encode_append (pre ++ line),
    encode_symbols]

/-- The scan finds the lines of a proper decomposition, whatever text stands before it. -/
theorem splitFrom_text {d : Decomposition} (h : d.Proper) (pre : List Char) :
    splitFrom (Utf8.encode (pre ++ d.text)) (Utf8.encode pre).length (Utf8.encode pre).length =
      some (d.lines.map Utf8.encode) := by
  induction d using ended_induction generalizing pre with
  | tail t =>
    have hcut := slice?_encode pre t []
    have hpass := splitFrom_line (proper_nil.mp h) pre []
    rw [List.append_nil] at hcut hpass
    show splitFrom (Utf8.encode (pre ++ t)) _ _ = _
    have hnil : Utf8.encode t = [] ↔ t = [] := Utf8.carried_lineEnds.flatMap_eq_nil
    rw [hpass, splitFrom_end hcut (by simp [Utf8.encode_append])]
    by_cases ht : t = []
    · rw [if_pos (hnil.mpr ht), lines, if_pos ht]
      rfl
    · rw [if_neg (mt hnil.mp ht), lines, if_neg ht]
      rfl
  | cons p d ih =>
    obtain ⟨hline, hnext, hrest⟩ := proper_cons.mp h
    rw [text_cons, ← List.append_assoc, splitFrom_ended hline pre hnext, ih hrest (pre ++ p.text)]
    rfl

/-- The scan of the octets of a text finds the lines that the text has, and cuts them out
between characters. -/
theorem split?_encode (text : List Char) :
    split? (Utf8.encode text) = some ((ofText text).map Utf8.encode) := by
  have hscan := splitFrom_text (proper_decompose text) []
  rwa [List.nil_append, text_decompose, lines_decompose] at hscan

/-! ## The lines of a text -/

/-- **Lines are what their ends leave.** A text has exactly one proper decomposition, and
the scan of its octets cuts out the lines of that one, none of them inside a character;
`ofText` has the same lines. Put the other way, lines without line ends that are written
with any ends, and with any such tail behind them, are what is read, as long as no line
that ends in a carriage return has an empty line behind it that ends in a line feed. -/
theorem decomposition_exact :
    (∀ text, ∃ d : Decomposition,
      (∀ d' : Decomposition, d'.Proper ∧ d'.text = text ↔ d' = d) ∧
      split? (Utf8.encode text) = some (d.lines.map Utf8.encode) ∧ ofText text = d.lines) ∧
    ∀ d : Decomposition, d.Clean → d.Parted →
      split? (Utf8.encode d.text) = some (d.lines.map Utf8.encode) ∧ ofText d.text = d.lines := by
  constructor
  · intro text
    refine ⟨decompose text, ?_, ?_, (lines_decompose text).symm⟩
    · intro d'
      constructor
      · rintro ⟨hproper, rfl⟩
        exact (decompose_text hproper).symm
      · rintro rfl
        exact ⟨proper_decompose text, text_decompose text⟩
    · rw [split?_encode, lines_decompose]
  · intro d hclean hparted
    have hlines : ofText d.text = d.lines := by
      rw [← lines_decompose, decompose_text ⟨hclean, hclean.apart hparted⟩]
    exact ⟨by rw [split?_encode, hlines], hlines⟩

/-- All three ends, an empty line behind a carriage return, a letter of two octets in front
of an end, and a tail. -/
theorem decomposition_exact_sample :
    split? (Utf8.ofString "a\r\n\r\rü\nb") =
      some [Utf8.ofString "a", [], [], Utf8.ofString "ü", Utf8.ofString "b"] := by
  let d : Decomposition := ⟨[⟨['a'], .pair⟩, ⟨[], .carriageReturn⟩, ⟨[], .carriageReturn⟩,
    ⟨['ü'], .lineFeed⟩], ['b']⟩
  have hclean : d.Clean := ⟨by simp [d, isEnd], by simp [d, isEnd]⟩
  have hparted : d.Parted := by simp [d, Parted]
  exact (decomposition_exact.2 d hclean hparted).1

end GuestSync.Lines
