/-!
# Decimals as binary floating point

The binary64 value nearest to a decimal: 53 bits of significand, ties to the
even neighbour, nothing finite from half a unit above the largest value on.
-/

namespace MessageRouting

/-- A finite value with 53 significant bits: `significand` times two to the `exponent`. -/
structure Binary64 where
  significand : Nat
  exponent : Int
  deriving DecidableEq, Repr

namespace Binary64

/-- The power of a base, both whole numbers. -/
abbrev power (base n : Nat) : Nat := Nat.pow base n

/-- The quotient `num / den` rounded to the nearest whole number, a half to the even one. -/
def roundDiv (num den : Nat) : Nat :=
  let q := num / den
  let twice := 2 * (num % den)
  if twice < den then q
  else if den < twice then q + 1
  else if q % 2 = 0 then q else q + 1

/-- The largest `k` with `2 ^ k ≤ num / den`, for `num` and `den` that are not zero. -/
def log2Quotient (num den : Nat) : Int :=
  let a := Nat.log2 num
  let b := Nat.log2 den
  let reached := if b ≤ a then den * power 2 (a - b) ≤ num else den ≤ num * power 2 (b - a)
  if reached then (a : Int) - b else (a : Int) - b - 1

/-- The value nearest to `num / den`, or nothing where that is beyond all finite values. -/
def nearest (num den : Nat) : Option Binary64 :=
  if num = 0 then some ⟨0, 0⟩
  else
    let unit := max (log2Quotient num den - 52) (-1074)
    let s :=
      if 0 ≤ unit then roundDiv num (den * power 2 unit.toNat)
      else roundDiv (num * power 2 (-unit).toNat) den
    if power 2 1024 ≤ s * power 2 unit.toNat then none else some ⟨s, unit⟩

/-- The value nearest to the product of two values. -/
def mul (x y : Binary64) : Option Binary64 :=
  let s := x.significand * y.significand
  let e := x.exponent + y.exponent
  if 0 ≤ e then nearest (s * power 2 e.toNat) 1 else nearest s (power 2 (-e).toNat)

/-- The largest whole number that is not above the value. -/
def floor (x : Binary64) : Nat :=
  if 0 ≤ x.exponent then x.significand * power 2 x.exponent.toNat
  else x.significand / power 2 (-x.exponent).toNat

/-- The value nearest to `mantissa` times ten to the `exponent`. Exponents far outside the finite
range are settled by the number of digits, without forming the power. -/
def ofDecimal (mantissa : Nat) (exponent : Int) : Option Binary64 :=
  if mantissa = 0 then some ⟨0, 0⟩
  else
    let digits : Int := (Nat.toDigits 10 mantissa).length
    if 310 < digits + exponent then none
    else if digits + exponent < -400 then some ⟨0, 0⟩
    else if 0 ≤ exponent then nearest (mantissa * power 10 exponent.toNat) 1
    else nearest mantissa (power 10 (-exponent).toNat)

end Binary64

end MessageRouting
