/-
# GuestSync.Decimal.Binary64 -- decimal numbers rounded to double precision

A number of double precision is an integer below 2^53 times a power of two that
is at least 2^-1074. A decimal number is rounded to the nearest of them, a number
halfway between two to the one with the even integer. All arithmetic is exact
arithmetic on natural numbers.
-/
import GuestSync.Bytes

namespace GuestSync.Decimal

/-- A natural number times a power of two. -/
structure Binary64 where
  significand : Nat
  exponent : Int
  deriving DecidableEq, Repr

/-- The quotient rounded to the nearest integer, halves to the even one. -/
def roundEven (num den : Nat) : Nat :=
  let q := num / den
  let twice := 2 * (num % den)
  if twice < den then q else if den < twice then q + 1 else q + q % 2

/-- The natural number `2 ^ e`, and 1 for a negative exponent. -/
def pow2 (e : Int) : Nat := Nat.pow 2 e.toNat

/-- The natural number `10 ^ e`, and 1 for a negative exponent. -/
def pow10 (e : Int) : Nat := Nat.pow 10 e.toNat

/-- The positive quotient of two numbers in double precision. `none` if it is too
large. -/
def roundQuotient (num den : Nat) : Option Binary64 :=
  let guess : Int := (num.log2 : Int) - den.log2 - 53
  let fits (e : Int) : Bool := num * pow2 (-e) < den * pow2 e * pow2 53
  let e := max (-1074) (if fits guess then guess else guess + 1)
  let m := roundEven (num * pow2 (-e)) (den * pow2 e)
  let r : Binary64 := if m = pow2 53 then ⟨pow2 52, e + 1⟩ else ⟨m, e⟩
  if r.exponent ≤ 971 then some r else none

/-- The number `digits * 10 ^ exponent` in double precision. Numbers from 10^310
on are too large, and those below 10^-330 are zero. -/
def roundDecimal (digits : Nat) (exponent : Int) : Option Binary64 :=
  if digits = 0 then some ⟨0, 0⟩
  else
    let size : Int := exponent + (Nat.toDigits 10 digits).length
    if 310 < size then none
    else if size < -330 then some ⟨0, 0⟩
    else roundQuotient (digits * pow10 exponent) (pow10 (-exponent))

end GuestSync.Decimal
