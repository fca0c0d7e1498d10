/-
# GuestSync.Proofs.TextRoundTrip -- text there and back again

A text that was pushed comes back with its line ends made line feeds and its last
line ended; pushing that again gives what the first push gave. Three inverses are
put together here: lines that end in one terminator are read back as the same
lines, Mac Roman octets are read back as the characters they were written for, and
UTF-8 is read back as it was written.
-/
import GuestSync.Convert
import GuestSync.Proofs.LineEnds

namespace GuestSync

/-! ## Lines -/

namespace Lines

/-- Whether a character ends a line. -/
def isEnd (c : Char) : Bool := c == '\n' || c == '\r'

/-- The text with a line feed for each line end. -/
def unixEnds : List Char → List Char
  | [] => []
  | '\r' :: '\n' :: r => '\n' :: unixEnds r
  | '\r' :: r => '\n' :: unixEnds r
  | c :: r => c :: unixEnds r

/-- The text with a line feed after its last line, if that has no end. -/
def finished (text : List Char) : List Char :=
  if text = [] ∨ text.getLast? = some '\n' then text else text ++ ['\n']

/-- The text with a line feed for each line end and after its last line. -/
def normalized (text : List Char) : List Char := finished (unixEnds text)

theorem ofText_newline (r : List Char) : ofText ('\n' :: r) = [] :: ofText r := by
  rw [ofText]

theorem ofText_crlf (r : List Char) : ofText ('\r' :: '\n' :: r) = [] :: ofText r := by
  rw [ofText]

theorem ofText_return {r : List Char} (h : r.head? ≠ some '\n') :
    ofText ('\r' :: r) = [] :: ofText r := by
  cases r with
  | nil => rfl
  | cons c r =>
    have hc : c ≠ '\n' := by simpa using h
    rw [ofText]
    simpa using hc

/-- A character that ends no line goes in front of the first line. -/
theorem ofText_cons {c : Char} (hc : isEnd c = false) (r : List Char) :
    ofText (c :: r) = (c :: (ofText r).headD []) :: (ofText r).tail := by
  simp only [isEnd, Bool.or_eq_false_iff, beq_eq_false_iff_ne] at hc
  rw [ofText]
  · cases ofText r <;> rfl
  · exact hc.1
  · exact fun _ h _ => hc.2 h
  · exact hc.2

/-- The cases of a text by what it starts with. -/
theorem text_induction {P : List Char → Prop} (nil : P [])
    (newline : ∀ r, P r → P ('\n' :: r)) (crlf : ∀ r, P r → P ('\r' :: '\n' :: r))
    (ret : ∀ r, r.head? ≠ some '\n' → P r → P ('\r' :: r))
    (other : ∀ c r, isEnd c = false → P r → P (c :: r)) (text : List Char) : P text := by
  induction text using ofText.induct with
  | case1 => exact nil
  | case2 r ih => exact newline r ih
  | case3 r ih => exact crlf r ih
  | case4 r hr ih =>
    refine ret r ?_ ih
    cases r with
    | nil => simp
    | cons c r => exact fun h => hr r (by simpa using h)
  | case5 c r hn _ hr hlines ih => exact other c r (by simp_all [isEnd]) ih
  | case6 c r hn _ hr line lines hlines ih => exact other c r (by simp_all [isEnd]) ih

/-- No line has a line end in it. -/
theorem isEnd_of_mem_ofText {text : List Char} :
    ∀ line ∈ ofText text, ∀ c ∈ line, isEnd c = false := by
  induction text using text_induction with
  | nil => simp [ofText]
  | newline r ih => simpa [ofText_newline] using ih
  | crlf r ih => simpa [ofText_crlf] using ih
  | ret r hr ih => simpa [ofText_return hr] using ih
  | other c r hc ih =>
    rw [ofText_cons hc]
    intro line hline
    rcases List.mem_cons.mp hline with rfl | hline
    · intro d hd
      rcases List.mem_cons.mp hd with rfl | hd
      · exact hc
      · cases hlines : ofText r with
        | nil => simp [hlines] at hd
        | cons l ls => exact ih l (by simp [hlines]) d (by simpa [hlines] using hd)
    · exact ih line (List.mem_of_mem_tail hline)

theorem toText_cons (t : Char) (line : List Char) (lines : List (List Char)) :
    toText t (line :: lines) = line ++ t :: toText t lines := by
  simp [toText]

/-- Lines that end in carriage returns do not start with a line feed. -/
theorem head?_toText_ne {lines : List (List Char)}
    (h : ∀ line ∈ lines, ∀ c ∈ line, isEnd c = false) :
    (toText '\r' lines).head? ≠ some '\n' := by
  cases lines with
  | nil => simp [toText]
  | cons line lines =>
    cases line with
    | nil => simp [toText]
    | cons c line =>
      have hc := h _ List.mem_cons_self c List.mem_cons_self
      intro hhead
      obtain rfl : c = '\n' := by simpa [toText] using hhead
      simp [isEnd] at hc

/-- Lines that all end in one terminator are read back. -/
theorem ofText_toText {t : Char} (ht : isEnd t = true) {lines : List (List Char)}
    (h : ∀ line ∈ lines, ∀ c ∈ line, isEnd c = false) : ofText (toText t lines) = lines := by
  induction lines with
  | nil => rfl
  | cons line lines ih =>
    have hline : ∀ c ∈ line, isEnd c = false := h line (by simp)
    have hlines : ∀ l ∈ lines, ∀ c ∈ l, isEnd c = false := by
      intro l hl
      exact h l (by simp [hl])
    have hrest : ofText (toText t lines) = lines := ih hlines
    rw [toText_cons]
    clear h ih
    -- Along the first line, up to its terminator; the lines after it stay as they are.
    induction line with
    | nil =>
      rw [List.nil_append]
      simp only [isEnd, Bool.or_eq_true, beq_iff_eq] at ht
      rcases ht with rfl | rfl
      · rw [ofText_newline, hrest]
      · rw [ofText_return (head?_toText_ne hlines), hrest]
    | cons c line ih =>
      rw [List.cons_append, ofText_cons (hline c (by simp)), ih fun d hd => hline d (by simp [hd])]
      rfl

theorem unixEnds_return {r : List Char} (h : r.head? ≠ some '\n') :
    unixEnds ('\r' :: r) = '\n' :: unixEnds r := by
  cases r with
  | nil => rfl
  | cons c r =>
    have hc : c ≠ '\n' := by simpa using h
    rw [unixEnds]
    simpa using hc

theorem unixEnds_cons {c : Char} (hc : c ≠ '\r') (r : List Char) :
    unixEnds (c :: r) = c :: unixEnds r := by
  rw [unixEnds]
  · exact fun _ h _ => hc h
  · exact hc

theorem finished_cons (c : Char) {text : List Char} (h : text ≠ []) :
    finished (c :: text) = c :: finished text := by
  cases text with
  | nil => exact absurd rfl h
  | cons d r =>
    simp only [finished, List.getLast?_cons_cons, reduceCtorEq, false_or, List.cons_append]
    split <;> rfl

theorem finished_newline (text : List Char) :
    finished ('\n' :: text) = '\n' :: finished text := by
  cases text with
  | nil => rfl
  | cons c r => exact finished_cons '\n' (by simp)

/-- A last line without its end gets one. -/
theorem finished_last {c : Char} (hc : c ≠ '\n') : finished [c] = [c, '\n'] := by
  simp [finished, hc]

theorem chars_isEnd (c : Char) : LineEnds.chars.isEnd c = isEnd c := Bool.or_comm _ _

theorem not_isPair {c : Char} {r : List Char} (h : c = '\r' → r.head? ≠ some '\n') :
    ¬ LineEnds.chars.IsPair c r := fun hpair => h hpair.1 hpair.2

/-- Only the empty text has no lines. -/
theorem ofText_eq_nil {text : List Char} : ofText text = [] ↔ text = [] := by
  refine ⟨?_, fun h => by rw [h]; rfl⟩
  induction text using text_induction with
  | nil => exact fun _ => rfl
  | newline r _ => simp [ofText_newline]
  | crlf r _ => simp [ofText_crlf]
  | ret r hr _ => simp [ofText_return hr]
  | other c r hc _ => simp [ofText_cons hc]

/-- **Lines and back.** The lines of a text, each ended in the same way, are the text with
its line ends made uniform and its last line ended. -/
theorem toText_ofText_terminated (t : Char) (text : List Char) :
    toText t (ofText text) = LineEnds.chars.terminated t text := by
  induction text using text_induction with
  | nil => rfl
  | newline r ih =>
    rw [ofText_newline, toText_cons, ih,
      LineEnds.terminated_end _ _ (by decide) (not_isPair (by simp))]
    rfl
  | crlf r ih =>
    rw [ofText_crlf, toText_cons, ih]
    exact (LineEnds.terminated_pair LineEnds.chars t r).symm
  | ret r hr ih =>
    rw [ofText_return hr, toText_cons, ih,
      LineEnds.terminated_end _ _ (by decide) (not_isPair fun _ => hr)]
    rfl
  | other c r hc ih =>
    rw [ofText_cons hc, toText_cons]
    have hc' : LineEnds.chars.isEnd c = false := by rw [chars_isEnd, hc]
    by_cases hr : r = []
    · subst hr
      rw [LineEnds.terminated_last _ _ hc']
      rfl
    · rw [LineEnds.terminated_cons _ _ hc' hr, ← ih]
      obtain ⟨line, lines, hlines⟩ := List.exists_cons_of_ne_nil (mt ofText_eq_nil.mp hr)
      rw [hlines, toText_cons]
      rfl

theorem unixEnds_eq_nil {text : List Char} : unixEnds text = [] ↔ text = [] := by
  refine ⟨?_, fun h => by rw [h]; rfl⟩
  fun_cases unixEnds text <;> simp

theorem normalized_eq_terminated (text : List Char) :
    normalized text = LineEnds.chars.terminated '\n' text := by
  unfold normalized
  induction text using text_induction with
  | nil => rfl
  | newline r ih =>
    rw [unixEnds_cons (by decide), finished_newline, ih,
      LineEnds.terminated_end _ _ (by decide) (not_isPair (by simp))]
  | crlf r ih =>
    rw [unixEnds, finished_newline, ih]
    exact (LineEnds.terminated_pair LineEnds.chars '\n' r).symm
  | ret r hr ih =>
    rw [unixEnds_return hr, finished_newline, ih,
      LineEnds.terminated_end _ _ (by decide) (not_isPair fun _ => hr)]
  | other c r hc ih =>
    have hc' : LineEnds.chars.isEnd c = false := by rw [chars_isEnd, hc]
    simp only [isEnd, Bool.or_eq_false_iff, beq_eq_false_iff_ne] at hc
    rw [unixEnds_cons hc.2]
    by_cases hr : r = []
    · subst hr
      rw [LineEnds.terminated_last _ _ hc']
      exact finished_last hc.1
    · rw [finished_cons c (mt unixEnds_eq_nil.mp hr), ih, LineEnds.terminated_cons _ _ hc' hr]

theorem toText_ofText (text : List Char) : toText '\n' (ofText text) = normalized text := by
  rw [toText_ofText_terminated, normalized_eq_terminated]

end Lines

/-! ## Mac Roman -/

namespace MacRoman

theorem length_upperHalf : upperHalf.length = 128 := by decide +kernel

theorem decodeByte_encodeChar {c : Char} {b : UInt8} (h : encodeChar c = some b) :
    decodeByte b = c := by
  unfold encodeChar at h
  split at h
  · next hlow =>
    obtain rfl : UInt8.ofNat c.toNat = b := by simpa using h
    have hn : (UInt8.ofNat c.toNat).toNat = c.toNat := by
      apply UInt8.toNat_ofNat_of_lt'
      show c.toNat < 256
      omega
    have hb : UInt8.ofNat c.toNat < 0x80 := by
      rw [UInt8.lt_iff_toNat_lt, hn]
      exact hlow
    rw [decodeByte, if_pos hb, hn, Char.ofNat_toNat]
  · next hhigh =>
    obtain ⟨i, hi, rfl⟩ : ∃ i, upperHalf.idxOf? c.toNat = some i ∧ UInt8.ofNat (0x80 + i) = b := by
      simpa using h
    obtain ⟨hlt, hat, -⟩ := List.idxOf?_eq_some_iff.mp hi
    have hpage : i < 128 := length_upperHalf ▸ hlt
    have hn : (UInt8.ofNat (0x80 + i)).toNat = 0x80 + i := by
      apply UInt8.toNat_ofNat_of_lt'
      show 0x80 + i < 256
      omega
    have hb : ¬ UInt8.ofNat (0x80 + i) < 0x80 := by
      rw [UInt8.lt_iff_toNat_lt, hn]
      exact Nat.not_lt.mpr (Nat.le_add_right 0x80 i)
    rw [decodeByte, if_neg hb, hn, Nat.add_sub_cancel_left, List.getD_eq_getElem _ _ hlt,
      hat, Char.ofNat_toNat]

/-- Mac Roman is read as it was written. -/
theorem decode_encode {text : List Char} {bs : Bytes} (h : encode text = some bs) :
    decode bs = text := by
  induction text generalizing bs with
  | nil =>
    obtain rfl : [] = bs := by simpa [encode] using h
    rfl
  | cons c r ih =>
    obtain ⟨b, hb, bs', hbs, rfl⟩ : ∃ b, encodeChar c = some b ∧
        ∃ bs', encode r = some bs' ∧ b :: bs' = bs := by
      simpa [encode, List.mapM_cons, Option.bind_eq_some_iff] using h
    rw [decode, List.map_cons, decodeByte_encodeChar hb]
    exact congrArg (c :: ·) (ih hbs)

end MacRoman

/-! ## Contents -/

theorem convertText_push_eq_ok {input output : Bytes} :
    convertText .push input = .ok output ↔ ∃ text, Utf8.decode input = some text ∧
      MacRoman.encode (Lines.toText '\r' (Lines.ofText text)) = some output := by
  unfold convertText
  dsimp only
  cases Utf8.decode input with
  | none => simp
  | some text =>
    dsimp only
    cases hbs : MacRoman.encode (Lines.toText '\r' (Lines.ofText text)) with
    | none => simp [hbs]
    | some bs => simp [hbs]

/-- The pull of what was pushed has the lines of the text that was pushed. -/
theorem convertText_pull_encode {text : List Char} {bs : Bytes}
    (h : MacRoman.encode (Lines.toText '\r' (Lines.ofText text)) = some bs) :
    convertText .pull bs = .ok (Utf8.encode (Lines.toText '\n' (Lines.ofText text))) := by
  rw [convertText, MacRoman.decode_encode h, Lines.ofText_toText rfl Lines.isEnd_of_mem_ofText]

/-- **Text there and back.** If a content could be pushed then it is a text, and its
pull is that text with a line feed for each line end and after its last line. -/
theorem convertText_pull_push {input output : Bytes} (h : convertText .push input = .ok output) :
    ∃ text, Utf8.decode input = some text ∧
      convertText .pull output = .ok (Utf8.encode (Lines.normalized text)) := by
  obtain ⟨text, htext, hbs⟩ := convertText_push_eq_ok.mp h
  exact ⟨text, htext, by rw [convertText_pull_encode hbs, Lines.toText_ofText]⟩

/-- What was pulled after a push is pushed as before. -/
theorem convertText_push_pull {input output back : Bytes} (h : convertText .push input = .ok output)
    (hback : convertText .pull output = .ok back) : convertText .push back = .ok output := by
  obtain ⟨text, -, hbs⟩ := convertText_push_eq_ok.mp h
  rw [convertText_pull_encode hbs, Except.ok.injEq] at hback
  refine convertText_push_eq_ok.mpr ⟨_, hback ▸ Utf8.decode_encode _, ?_⟩
  rw [Lines.ofText_toText rfl Lines.isEnd_of_mem_ofText, hbs]

/-- The direction the other way. -/
def Direction.opposite : Direction → Direction
  | .push => .pull
  | .pull => .push

@[simp] theorem Direction.opposite_opposite (direction : Direction) :
    direction.opposite.opposite = direction := by
  cases direction <;> rfl

/-- Contents at the two ends of a direction that convert into each other. -/
structure Twins (direction : Direction) (kind : FileKind) (source destination : Bytes) : Prop where
  there : convert kind direction source = .ok destination
  back : convert kind direction.opposite destination = .ok source

theorem Twins.symm {direction : Direction} {kind : FileKind} {a b : Bytes}
    (h : Twins direction kind a b) : Twins direction.opposite kind b a :=
  ⟨h.back, by rw [Direction.opposite_opposite]; exact h.there⟩

/-- What a push has made of a content and its pull convert into each other. -/
theorem Twins.of_push {kind : FileKind} {input output : Bytes}
    (h : convert kind .push input = .ok output) : ∃ back, Twins .pull kind output back := by
  cases kind with
  | text =>
    obtain ⟨text, -, hback⟩ := convertText_pull_push h
    exact ⟨_, hback, convertText_push_pull h hback⟩
  | binary => exact ⟨output, rfl, rfl⟩

end GuestSync
