/-
# GuestSync.Toml.Document -- reading a TOML 1.1 document

A document is a sequence of lines, each of them blank, a comment, a header or a
key with its value. Arrays and inline tables may run over several lines and may
end in a comma, and they nest at most eighty deep. A line feed, alone or behind a
carriage return, ends a line; a carriage return alone stands nowhere.

The readers answer `none` for whatever is not in the grammar. Those that go
around a loop get a bound on its rounds, and every round takes at least one
character, so the length of the text is bound enough.
-/
import GuestSync.Toml.Entries
import GuestSync.Toml.Quote

namespace GuestSync.Toml

/-! ## Blanks and comments -/

/-- The text without the blanks in front of it. -/
def blanks : List Char → List Char := List.dropWhile fun c => c == ' ' || c == '\t'

/-- What follows a comment, starting behind its sign: the end of the line or of the
text. -/
def comment? : List Char → Option (List Char)
  | [] => some []
  | '\n' :: r => some ('\n' :: r)
  | '\r' :: '\n' :: r => some ('\r' :: '\n' :: r)
  | c :: r => if isPlain c then comment? r else none

/-- What follows the rest of a line, which holds nothing but blanks and a
comment. -/
def lineEnd? (cs : List Char) : Option (List Char) := do
  let cs := blanks cs
  let cs ← if cs.head? = some '#' then comment? (cs.drop 1) else some cs
  match cs with
  | [] => some []
  | '\n' :: r => some r
  | '\r' :: '\n' :: r => some r
  | _ => none

/-- What follows blanks, line ends and comments between the items of an array. -/
def gap? : (inComment : Bool) → List Char → Option (List Char)
  | false, ' ' :: r => gap? false r
  | false, '\t' :: r => gap? false r
  | false, '#' :: r => gap? true r
  | _, '\n' :: r => gap? false r
  | _, '\r' :: '\n' :: r => gap? false r
  | false, cs => some cs
  | true, c :: r => if isPlain c then gap? true r else none
  | true, [] => some []

/-! ## Keys -/

/-- Whether a character may stand in a bare key. -/
def isBare (c : Char) : Bool := c.isAlphanum || c == '-' || c == '_'

/-- One key and what follows it. -/
def key? (cs : List Char) : Option (String × List Char) :=
  match cs.takeWhile isBare with
  | [] => (quotedKey? cs).map fun t => (String.ofList t.1, t.2)
  | name => some (String.ofList name, cs.dropWhile isBare)

/-- Keys with dots between them: those before the last, the last, and what
follows. -/
def dottedKey? : (rounds : Nat) → List Char → Option (List String × String × List Char)
  | 0, _ => none
  | rounds + 1, cs => do
    let (key, r) ← key? cs
    match blanks r with
    | '.' :: r =>
      let (path, last, r) ← dottedKey? rounds (blanks r)
      some (key :: path, last, r)
    | r => some ([], key, r)

/-! ## Values -/

/-- How deep arrays and inline tables may nest. -/
def maxDepth : Nat := 80

mutual

/-- A value and what follows it. -/
def value? : (rounds depth : Nat) → List Char → Option (Value × List Char)
  | 0, _, _ => none
  | _ + 1, 0, '[' :: _ => none
  | _ + 1, 0, '\x7b' :: _ => none
  | rounds + 1, depth + 1, '[' :: r => do
    let (items, r) ← items? rounds depth (← gap? false r)
    some (.array items, r)
  | rounds + 1, depth + 1, '\x7b' :: r => do
    let (entries, r) ← pairs? rounds depth [] (← gap? false r)
    some (.table .braces entries, r)
  | _ + 1, _, '"' :: r => (quoted? ('"' :: r)).map fun t => (.string (String.ofList t.1), t.2)
  | _ + 1, _, '\'' :: r => (quoted? ('\'' :: r)).map fun t => (.string (String.ofList t.1), t.2)
  | _ + 1, _, cs => (scalar? (run cs).1).map fun v => (v, (run cs).2)

/-- The items of an array up to its closing bracket. -/
def items? : (rounds depth : Nat) → List Char → Option (List Value × List Char)
  | 0, _, _ => none
  | _ + 1, _, ']' :: r => some ([], r)
  | rounds + 1, depth, cs => do
    let (v, r) ← value? rounds depth cs
    match ← gap? false r with
    | ',' :: r =>
      let (vs, r) ← items? rounds depth (← gap? false r)
      some (v :: vs, r)
    | ']' :: r => some ([v], r)
    | _ => none

/-- The pairs of an inline table up to its closing brace, added to those before
them. -/
def pairs? : (rounds depth : Nat) → Entries → List Char → Option (Entries × List Char)
  | 0, _, _, _ => none
  | _ + 1, _, es, '\x7d' :: r => some (es, r)
  | rounds + 1, depth, es, cs => do
    let (path, key, r) ← dottedKey? cs.length cs
    let (v, r) ← value? rounds depth (blanks (← after? '=' r))
    let es ← Entries.assign path key v es
    match ← gap? false r with
    | ',' :: r => pairs? rounds depth es (← gap? false r)
    | '\x7d' :: r => some (es, r)
    | _ => none

end

/-! ## Documents -/

/-- The rest of a document, read into the entries of the lines before it. -/
def lines? : (rounds : Nat) → (header : List String) → Entries → List Char → Option Entries
  | 0, _, _, _ => none
  | rounds + 1, header, es, cs =>
    match blanks cs with
    | [] => some es
    | '[' :: '[' :: r => do
      let (path, key, r) ← dottedKey? r.length (blanks r)
      let r ← lineEnd? (← after? ']' (← after? ']' r))
      lines? rounds (path ++ [key]) (← Entries.openNextTable path key es) r
    | '[' :: r => do
      let (path, key, r) ← dottedKey? r.length (blanks r)
      let r ← lineEnd? (← after? ']' r)
      lines? rounds (path ++ [key]) (← Entries.openTable path key es) r
    | c :: r =>
      if c = '#' ∨ c = '\n' ∨ c = '\r' then do
        lines? rounds header es (← lineEnd? (c :: r))
      else do
        let (path, key, r) ← dottedKey? (r.length + 1) (c :: r)
        let (v, r) ← value? (r.length + 1) maxDepth (blanks (← after? '=' r))
        lines? rounds header (← Entries.assignIn header path key v es) (← lineEnd? r)

/-- The top level entries of a document. One byte order mark in front of it is
passed over. -/
def parse? (text : List Char) : Option Entries :=
  let text := if text.head? = some (Char.ofNat 0xFEFF) then text.drop 1 else text
  lines? (text.length + 1) [] [] text

end GuestSync.Toml
