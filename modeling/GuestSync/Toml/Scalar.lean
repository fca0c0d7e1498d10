/-
# GuestSync.Toml.Scalar -- numbers, truth values and dates

A value that is neither quoted nor bracketed is one run of characters. Each
reader here takes a whole run and answers `none` if the run has not its form, so
no run is read in part.
-/
import GuestSync.Toml.Value

namespace GuestSync.Toml

/-! ## Digits -/

/-- Digits with single underscores between them, without the underscores. -/
def digits? (isDigit : Char → Bool) : List Char → Option (List Char)
  | [] => none
  | [c] => if isDigit c then some [c] else none
  | c :: '_' :: r => if isDigit c then (digits? isDigit r).map (c :: ·) else none
  | c :: r => if isDigit c then (digits? isDigit r).map (c :: ·) else none

/-- Decimal digits that do not start with a zero, unless they are a single one. -/
def wholeDigits? (cs : List Char) : Option (List Char) :=
  match digits? Char.isDigit cs with
  | some ['0'] => some ['0']
  | some ('0' :: _) => none
  | ds => ds

/-- The value of a digit of either case. -/
def digitValue (c : Char) : Nat :=
  if c.isDigit then c.toNat - '0'.toNat
  else if c.isLower then c.toNat - 'a'.toNat + 10
  else c.toNat - 'A'.toNat + 10

/-- The number that digits denote to a base. -/
def ofDigits (base : Nat) (ds : List Char) : Nat :=
  ds.foldl (fun n c => n * base + digitValue c) 0

/-- Whether a character is a digit to the base sixteen. -/
def isHexDigit (c : Char) : Bool :=
  c.isDigit || ('a' ≤ c && c ≤ 'f') || ('A' ≤ c && c ≤ 'F')

/-- The sign in front of a run and what follows it. -/
def sign : List Char → Bool × List Char
  | '-' :: r => (true, r)
  | '+' :: r => (false, r)
  | cs => (false, cs)

/-! ## Numbers -/

/-- An integer, to the base ten with or without a sign or to the bases sixteen,
eight and two. -/
def integer? : List Char → Option Int
  | '0' :: 'x' :: r => (digits? isHexDigit r).map fun ds => (ofDigits 16 ds : Int)
  | '0' :: 'o' :: r =>
    (digits? (fun c => '0' ≤ c && c ≤ '7') r).map fun ds => (ofDigits 8 ds : Int)
  | '0' :: 'b' :: r =>
    (digits? (fun c => c == '0' || c == '1') r).map fun ds => (ofDigits 2 ds : Int)
  | cs =>
    let (negative, r) := sign cs
    (wholeDigits? r).map fun ds =>
      if negative then -(ofDigits 10 ds : Int) else (ofDigits 10 ds : Int)

/-- The exponent after the letter `e`. -/
def exponent? (cs : List Char) : Option Int :=
  let (negative, r) := sign cs
  (digits? Char.isDigit r).map fun ds =>
    if negative then -(ofDigits 10 ds : Int) else (ofDigits 10 ds : Int)

/-- A floating point number. It has a fraction, an exponent or both. -/
def float? (cs : List Char) : Option Float64 := do
  let (negative, r) := sign cs
  if r = ['i', 'n', 'f'] then return .infinite negative
  if r = ['n', 'a', 'n'] then return .nan
  let (mantissa, tail) := r.span fun c => c != 'e' && c != 'E'
  let (whole, fraction) := mantissa.span (· != '.')
  if tail = [] ∧ fraction = [] then none
  let whole ← wholeDigits? whole
  let fraction ← if fraction = [] then some [] else digits? Char.isDigit (fraction.drop 1)
  let exponent ← if tail = [] then some 0 else exponent? (tail.drop 1)
  return .finite negative (ofDigits 10 (whole ++ fraction)) (exponent - fraction.length)

/-! ## Dates and times -/

/-- A number of exactly so many digits, and what follows it. -/
def fixedNumber? (size : Nat) (cs : List Char) : Option (Nat × List Char) :=
  let ds := cs.takeWhile Char.isDigit
  if ds.length = size then some (ofDigits 10 ds, cs.drop size) else none

/-- What follows a given character. -/
def after? (c : Char) : List Char → Option (List Char)
  | d :: r => if c = d then some r else none
  | [] => none

/-- The number of days in a month. -/
def daysIn (year month : Nat) : Nat :=
  if month = 2 then
    if year % 4 = 0 ∧ (year % 100 ≠ 0 ∨ year % 400 = 0) then 29 else 28
  else if month = 4 ∨ month = 6 ∨ month = 9 ∨ month = 11 then 30
  else 31

/-- What follows a date. -/
def date? (cs : List Char) : Option (List Char) := do
  let (year, r) ← fixedNumber? 4 cs
  let (month, r) ← fixedNumber? 2 (← after? '-' r)
  let (day, r) ← fixedNumber? 2 (← after? '-' r)
  if 1 ≤ month ∧ month ≤ 12 ∧ 1 ≤ day ∧ day ≤ daysIn year month then some r else none

/-- What follows a fraction of a second, which may be missing. -/
def fraction? : List Char → Option (List Char)
  | '.' :: r => if r.takeWhile Char.isDigit = [] then none else some (r.dropWhile Char.isDigit)
  | cs => some cs

/-- What follows a time of the day. Its seconds may be missing, and a minute may
have a leap second. -/
def time? (cs : List Char) : Option (List Char) := do
  let (hour, r) ← fixedNumber? 2 cs
  let (minute, r) ← fixedNumber? 2 (← after? ':' r)
  if 23 < hour ∨ 59 < minute then none
  match r with
  | ':' :: r =>
    let (second, r) ← fixedNumber? 2 r
    if 60 < second then none else fraction? r
  | r => some r

/-- What follows the distance from universal time, which may be missing. -/
def offset? : List Char → Option (List Char)
  | 'Z' :: r => some r
  | 'z' :: r => some r
  | cs =>
    if cs.head? = some '+' ∨ cs.head? = some '-' then do
      let (hour, r) ← fixedNumber? 2 (cs.drop 1)
      let (minute, r) ← fixedNumber? 2 (← after? ':' r)
      if hour ≤ 23 ∧ minute ≤ 59 then some r else none
    else some cs

/-- Whether a run is a date, a time, or both with or without an offset. -/
def isDateTime (cs : List Char) : Bool :=
  match date? cs with
  | some [] => true
  | some (c :: r) =>
    (c == 'T' || c == 't' || c == ' ') && (time? r).bind offset? == some []
  | none => time? cs == some []

/-! ## Runs -/

/-- Whether a character belongs to a run. -/
def inRun (c : Char) : Bool :=
  c.isAlphanum || c == '+' || c == '-' || c == '_' || c == '.' || c == ':'

/-- Whether a run looks like a date, whose time may follow after one space. -/
def looksLikeDate : List Char → Bool
  | [a, b, c, d, '-', e, f, '-', g, h] => [a, b, c, d, e, f, g, h].all Char.isDigit
  | _ => false

/-- The run at the front of a text, and what follows it. -/
def run (cs : List Char) : List Char × List Char :=
  let (first, rest) := cs.span inRun
  match rest with
  | ' ' :: c :: r =>
    if looksLikeDate first && c.isDigit then
      let (second, rest) := (c :: r).span inRun
      (first ++ ' ' :: second, rest)
    else (first, rest)
  | rest => (first, rest)

/-- The value of a run. -/
def scalar? (cs : List Char) : Option Value :=
  if cs = "true".toList then some (.boolean true)
  else if cs = "false".toList then some (.boolean false)
  else
    match integer? cs, float? cs with
    | some n, _ => some (.integer n)
    | none, some x => some (.float x)
    | none, none => if isDateTime cs then some .dateTime else none

end GuestSync.Toml
