/-
# GuestSync.Proofs.TextContents -- text contents octet by octet

What conversions there and back do to a text content, said of its octets alone. A
content that can be pushed comes back with a line feed for each line end and behind its
last line. Any content can be pulled, and what was pulled can always be pushed: it comes
back with a carriage return for each line end and behind its last line. A content that
is in such a form comes back as it is, so conversions to and fro repeat themselves with
period two from the first output on.
-/
import GuestSync.Proofs.TextRoundTrip

namespace GuestSync

open LineEnds (octets)

/-! ## Conversions to and fro -/

/-- What becomes of a text content in so many conversions, by turns to one side and to
the other. -/
def convertInTurn : Direction → Nat → Bytes → Except ConversionFault Bytes
  | _, 0, content => .ok content
  | direction, n + 1, content => do
    convertInTurn direction.opposite n (← convertText direction content)

theorem convertInTurn_of_ok {direction : Direction} {input output : Bytes}
    (h : convertText direction input = .ok output) (n : Nat) :
    convertInTurn direction (n + 1) input = convertInTurn direction.opposite n output := by
  rw [convertInTurn, h]
  rfl

/-- Contents that convert into each other come back every other time. -/
theorem Twins.convertInTurn {direction : Direction} {a b : Bytes}
    (h : Twins direction .text a b) (k : Nat) :
    GuestSync.convertInTurn direction (2 * k) a = .ok a ∧
      GuestSync.convertInTurn direction (2 * k + 1) a = .ok b := by
  induction k with
  | zero => exact ⟨rfl, convertInTurn_of_ok h.there 0⟩
  | succ k ih =>
    have htwo : ∀ n, GuestSync.convertInTurn direction (n + 2) a =
        GuestSync.convertInTurn direction n a := by
      intro n
      rw [convertInTurn_of_ok h.there, convertInTurn_of_ok h.back, Direction.opposite_opposite]
    exact ⟨(htwo _).trans ih.1, (htwo _).trans ih.2⟩

/-! ## From the local side and back -/

/-- What comes back of a content that was pushed, octet by octet. -/
theorem convertText_pull_pushed {input output : Bytes} (h : convertText .push input = .ok output) :
    convertText .pull output = .ok (octets.terminated Ascii.lineFeed input) := by
  obtain ⟨text, htext, hbs⟩ := convertText_push_eq_ok.mp h
  rw [convertText_pull_encode hbs, Lines.toText_ofText_terminated, Utf8.encode_terminated,
    Utf8.encode_of_decode htext]

/-- **Pushed text comes back.** If a content can be pushed, then what was made of it can be
pulled, and that gives the content with a line feed for each CR LF, CR or LF and one
behind it if it is not empty and has no line end there. So a content without carriage
returns that is empty or ends in a line feed comes back as it was. What comes back is
pushed to the same output again, and conversions to and fro have period two from the
first output on. -/
theorem pull_of_pushed_text {input output : Bytes} (h : convertText .push input = .ok output) :
    convertText .pull output = .ok (octets.terminated Ascii.lineFeed input) ∧
    (Ascii.carriageReturn ∉ input → input = [] ∨ input.getLast? = some Ascii.lineFeed →
      convertText .pull output = .ok input) ∧
    convertText .push (octets.terminated Ascii.lineFeed input) = .ok output ∧
    ∀ k, convertInTurn .push (2 * k + 1) input = .ok output ∧
      convertInTurn .push (2 * k + 2) input = .ok (octets.terminated Ascii.lineFeed input) := by
  have hback := convertText_pull_pushed h
  have hagain := convertText_push_pull h hback
  refine ⟨hback, ?_, hagain, ?_⟩
  · intro hcr hlast
    rw [hback]
    exact congrArg Except.ok (octets.terminated_lineFeed_eq_self hcr hlast)
  · intro k
    have htwins : Twins .pull .text output (octets.terminated Ascii.lineFeed input) :=
      ⟨hback, hagain⟩
    rw [convertInTurn_of_ok h, convertInTurn_of_ok h]
    exact htwins.convertInTurn k

/-- All three line ends, an empty line, a letter outside ASCII and no end of the last line;
and a text with line feeds only. -/
theorem pull_of_pushed_text_sample :
    convertText .push (Utf8.ofString "a\r\n\rü\nb") =
        .ok [0x61, 0x0D, 0x0D, 0x9F, 0x0D, 0x62, 0x0D] ∧
      convertText .pull [0x61, 0x0D, 0x0D, 0x9F, 0x0D, 0x62, 0x0D] =
        .ok (Utf8.ofString "a\n\nü\nb\n") ∧
      convertInTurn .push 6 (Utf8.ofString "a\r\n\rü\nb") = .ok (Utf8.ofString "a\n\nü\nb\n") ∧
      convertText .push (Utf8.ofString "ü\n") = .ok [0x9F, 0x0D] ∧
      convertText .pull [0x9F, 0x0D] = .ok (Utf8.ofString "ü\n") := by
  have hmixed : convertText .push (Utf8.ofString "a\r\n\rü\nb") =
      .ok [0x61, 0x0D, 0x0D, 0x9F, 0x0D, 0x62, 0x0D] := by decide +kernel
  have hplain : convertText .push (Utf8.ofString "ü\n") = .ok [0x9F, 0x0D] := by decide +kernel
  have hends : octets.terminated Ascii.lineFeed (Utf8.ofString "a\r\n\rü\nb") =
      Utf8.ofString "a\n\nü\nb\n" := by decide +kernel
  obtain ⟨hback, -, -, hturns⟩ := pull_of_pushed_text hmixed
  rw [hends] at hback hturns
  exact ⟨hmixed, hback, (hturns 2).2, hplain,
    (pull_of_pushed_text hplain).2.1 (by decide +kernel) (by decide +kernel)⟩

/-! ## From the guest and back -/

/-- **Pulled text goes back.** Whatever the octets of a content, it can be pulled, and that
gives the UTF-8 of a text. This can be pushed, and that gives the content with a carriage
return for each CR LF, CR or LF and one behind it if it is not empty and has no line end
there. So a content without line feeds that is empty or ends in a carriage return goes
back as it was. -/
theorem push_of_pulled_text (content : Bytes) :
    ∃ text, convertText .pull content = .ok (Utf8.encode text) ∧
      Utf8.decode (Utf8.encode text) = some text ∧
      convertText .push (Utf8.encode text) =
        .ok (octets.terminated Ascii.carriageReturn content) ∧
      (Ascii.lineFeed ∉ content → content = [] ∨ content.getLast? = some Ascii.carriageReturn →
        convertText .push (Utf8.encode text) = .ok content) := by
  have hdecode := Utf8.decode_encode
    (Lines.toText '\n' (Lines.ofText (MacRoman.decode content)))
  have hpush : convertText .push (Utf8.encode
      (Lines.toText '\n' (Lines.ofText (MacRoman.decode content)))) =
        .ok (octets.terminated Ascii.carriageReturn content) := by
    refine convertText_push_eq_ok.mpr ⟨_, hdecode, ?_⟩
    rw [Lines.ofText_toText rfl Lines.isEnd_of_mem_ofText, Lines.toText_ofText_terminated,
      ← MacRoman.decode_terminated, MacRoman.encode_decode]
  refine ⟨_, rfl, hdecode, hpush, ?_⟩
  intro hlf hlast
  rw [hpush]
  exact congrArg Except.ok (octets.terminated_carriageReturn_eq_self hlf hlast)

/-- A line end of two octets, and octets of the upper half of the page. -/
theorem push_of_pulled_text_sample :
    (∃ text, convertText .pull [0x0D, 0x0A, 0xF0, 0x0A, 0x8A] = .ok (Utf8.encode text) ∧
      convertText .push (Utf8.encode text) = .ok [0x0D, 0xF0, 0x0D, 0x8A, 0x0D]) ∧
    ∃ text, convertText .pull [0x0D, 0x8A, 0x0D] = .ok (Utf8.encode text) ∧
      convertText .push (Utf8.encode text) = .ok [0x0D, 0x8A, 0x0D] := by
  have hends : octets.terminated Ascii.carriageReturn [0x0D, 0x0A, 0xF0, 0x0A, 0x8A] =
      [0x0D, 0xF0, 0x0D, 0x8A, 0x0D] := by decide +kernel
  obtain ⟨text, hpull, -, hpush, -⟩ := push_of_pulled_text [0x0D, 0x0A, 0xF0, 0x0A, 0x8A]
  obtain ⟨text', hpull', -, -, hsame⟩ := push_of_pulled_text [0x0D, 0x8A, 0x0D]
  exact ⟨⟨text, hpull, hends ▸ hpush⟩, text', hpull', hsame (by decide) (by decide)⟩

end GuestSync
