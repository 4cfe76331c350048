/-!
# Double precision patterns

A pattern holds a sign, an exponent in excess 1023 and a 52-bit fraction.
Finite patterns denote rationals; `Binary64.ofRat` is the nearest pattern to
a rational, ties going to the even one.
-/

namespace StackComputer

abbrev Binary64 := BitVec 64

namespace Binary64

def negative (b : Binary64) : Bool := b.msb

/-- Exponent field, in excess 1023. -/
def exponent (b : Binary64) : Nat := b.toNat / 0x10000000000000 % 0x800

def fraction (b : Binary64) : Nat := b.toNat % 0x10000000000000

def ofFields (negative : Bool) (exponent fraction : Nat) : Binary64 :=
  BitVec.ofNat 64
    (negative.toNat * 0x8000000000000000 + exponent * 0x10000000000000 + fraction)

/-- The top exponent is kept for infinities and NaNs. -/
def isFinite (b : Binary64) : Bool := b.exponent != 2047

/-- The integer the fraction field stands for: with an implied leading one,
except under the lowest exponent. -/
def significand (b : Binary64) : Nat :=
  if b.exponent = 0 then b.fraction else 0x10000000000000 + b.fraction

/-- The rational `m * 2 ^ e`, with a sign. -/
def rational (negative : Bool) (m : Nat) (e : Int) : Rat :=
  let numerator := m <<< e.toNat
  mkRat (if negative then -numerator else numerator) (1 <<< (-e).toNat)

/-- Value of a finite pattern. -/
def value (b : Binary64) : Rat := rational b.negative b.significand (max b.exponent 1 - 1075)

/-- `numerator / denominator` rounded to an integer, ties to even. -/
def divideToEven (numerator denominator : Nat) : Nat :=
  let quotient := numerator / denominator
  let twice := 2 * (numerator % denominator)
  let down := twice < denominator ∨ twice = denominator ∧ quotient % 2 = 0
  if down then quotient else quotient + 1

/-- The `e` with `2 ^ e ≤ numerator / denominator < 2 ^ (e + 1)`. -/
def binaryExponent (numerator denominator : Nat) : Int :=
  let e := (numerator.log2 : Int) - denominator.log2
  if numerator <<< (-e).toNat < denominator <<< e.toNat then e - 1 else e

/-- The pattern nearest to `q`; past the largest finite one, infinity. A carry
out of the significand runs on into the exponent field. -/
def ofRat (q : Rat) : Binary64 :=
  if q = 0 then 0 else
  let numerator := q.num.natAbs
  let e := max (binaryExponent numerator q.den) (-1022)
  let scale := 52 - e
  let significand := divideToEven (numerator <<< scale.toNat) (q.den <<< (-scale).toNat)
  let pattern := (e + 1022).toNat * 0x10000000000000 + significand
  ofFields (decide (q.num < 0)) 0 (min pattern (2047 * 0x10000000000000))

end Binary64

end StackComputer
