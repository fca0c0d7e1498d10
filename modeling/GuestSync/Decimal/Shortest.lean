/-
# GuestSync.Decimal.Shortest -- the fewest digits that read back

A number of double precision is the nearest one to every decimal number in an
interval around it. The text of the number takes the fewest digits for which a
decimal number lies in that interval, and of those the nearest to the number
itself, the larger one if two are equally near.

On the grid of decimal numbers with a given number of digits only the two
neighbours of the number have to be tried: if any point of the grid lies in the
interval, one of them does.
-/
import GuestSync.Decimal.Binary64

namespace GuestSync.Decimal

/-- The natural number `digits * 10 ^ exponent`. -/
structure Scaled where
  digits : Nat
  exponent : Int
  deriving DecidableEq, Repr

/-- Four times the ends of the interval and the number itself, as multiples of
`2 ^ exponent`, and whether the ends belong to it. Below a power of two the next
number is half as far away as above it. -/
structure Interval where
  low : Nat
  middle : Nat
  high : Nat
  exponent : Int
  closed : Bool

/-- The interval of the decimal numbers that round to a positive number. -/
def Binary64.interval (x : Binary64) : Interval :=
  let below := if x.significand = pow2 52 ∧ -1074 < x.exponent then 1 else 2
  { low := 4 * x.significand - below
    middle := 4 * x.significand
    high := 4 * x.significand + 2
    exponent := x.exponent - 2
    closed := x.significand % 2 = 0 }

/-- The nearest point of the grid `10 ^ step` that lies in the interval. -/
def Interval.nearest? (i : Interval) (step : Int) : Option Nat :=
  let binary (x : Nat) : Nat := x * pow2 i.exponent * pow10 (-step)
  let unit : Nat := pow2 (-i.exponent) * pow10 step
  let inside (c : Nat) : Bool :=
    if i.closed then binary i.low ≤ c * unit && c * unit ≤ binary i.high
    else binary i.low < c * unit && c * unit < binary i.high
  let down := binary i.middle / unit
  let up := if down * unit = binary i.middle then down else down + 1
  match inside down, inside up with
  | true, true =>
    if binary i.middle - down * unit < up * unit - binary i.middle then some down else some up
  | true, false => some down
  | false, true => some up
  | false, false => none

/-- The first grid with a hit, from coarse to fine. -/
def Interval.firstHit (i : Interval) : Nat → Int → Scaled
  | 0, step => ⟨0, step⟩
  | tries + 1, step =>
    match i.nearest? step with
    | some c => ⟨c, step⟩
    | none => i.firstHit tries (step - 1)

/-- The decimal number of fewest digits that rounds to a positive number. -/
def Binary64.shortest (x : Binary64) : Scaled :=
  let whole := x.significand * pow2 x.exponent / pow2 (-x.exponent)
  let start : Int := if 0 < whole then (Nat.toDigits 10 whole).length else 0
  x.interval.firstHit 1200 start

/-! ## Text -/

/-- Digits in positional notation with at least one digit on either side of the
point. -/
def Scaled.positional (s : Scaled) : List Char :=
  let digits := Nat.toDigits 10 s.digits
  if 0 ≤ s.exponent then digits ++ List.replicate s.exponent.toNat '0' ++ ['.', '0']
  else
    let places := s.exponent.natAbs
    let padded := List.replicate (places + 1 - digits.length) '0' ++ digits
    let cut := padded.length - places
    padded.take cut ++ '.' :: padded.drop cut

/-- The text of a number of double precision. -/
def Binary64.text (x : Binary64) : List Char :=
  if x.significand = 0 then ['0', '.', '0'] else x.shortest.positional

end GuestSync.Decimal
