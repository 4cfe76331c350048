import StackComputer.Binary64
import StackComputer.Word

/-!
# Reals in a doubleword

From the high bit down: a sign, a 9-bit exponent in excess 256, and a 22-bit
fraction with an implied leading one. A doubleword with nothing set but
perhaps the sign is zero.

Sums, products and quotients are first rounded to double precision and then
to a real, so a result may be rounded twice.
-/

namespace StackComputer.RealWord

inductive RangeError where
  | overflow
  | underflow
deriving DecidableEq, Repr

def negative (r : Dword) : Bool := r.msb

/-- Exponent field, in excess 256. -/
def exponent (r : Dword) : Nat := r.toNat / 0x400000 % 0x200

def fraction (r : Dword) : Nat := r.toNat % 0x400000

/-- Zero, with either sign. -/
def isZero (r : Dword) : Bool := r.toNat % 0x80000000 == 0

def ofFields (negative : Bool) (exponent fraction : Nat) : Dword :=
  BitVec.ofNat 32 (negative.toNat * 0x80000000 + exponent * 0x400000 + fraction)

def value (r : Dword) : Rat :=
  if isZero r then 0 else
  Binary64.rational (negative r) (0x400000 + fraction r) (exponent r - 278)

/-- The double precision pattern of the same value. -/
def toBinary64 (r : Dword) : Binary64 :=
  if isZero r then 0 else
  Binary64.ofFields (negative r) (exponent r + 767) (fraction r * 0x40000000)

/-- Encodes a double precision pattern, its fraction rounded to 22 bits with
ties away from zero. -/
def ofBinary64 (b : Binary64) : Except RangeError Dword :=
  if b.exponent = 0 ∧ b.fraction = 0 then .ok 0 else
  if !b.isFinite then .error .overflow else
  if b.exponent = 0 then .error .underflow else
  let rounded := (b.fraction + 0x20000000) / 0x40000000
  let exponent := b.exponent + rounded / 0x400000
  if 1278 < exponent then .error .overflow else
  if exponent < 767 then .error .underflow else
  .ok (ofFields b.negative (exponent - 767) (rounded % 0x400000))

/-- Encodes an exact value by way of double precision. -/
def ofRat (q : Rat) : Except RangeError Dword := ofBinary64 (Binary64.ofRat q)

def add (a b : Dword) : Except RangeError Dword := ofRat (value a + value b)

def sub (a b : Dword) : Except RangeError Dword := ofRat (value a - value b)

def mul (a b : Dword) : Except RangeError Dword := ofRat (value a * value b)

/-- A quotient by zero is not finite, and so overflows. -/
def div (a b : Dword) : Except RangeError Dword :=
  if isZero b then .error .overflow else ofRat (value a / value b)

/-- Negation leaves no negative zero. -/
def neg (r : Dword) : Dword := if isZero r then 0 else r ^^^ 0x80000000

def compare (a b : Dword) : Ordering :=
  if value a < value b then .lt else if value b < value a then .gt else .eq

/-- The integer part, toward zero. -/
def truncate (q : Rat) : Int := q.num.tdiv q.den

/-- The nearest integer, ties away from zero. -/
def round (q : Rat) : Int := (2 * q.num + q.num.sign * q.den).tdiv (2 * q.den)

/-- The doubleword holding a signed integer, if it is in range. -/
def toInteger? (n : Int) : Option Dword :=
  if -0x80000000 ≤ n ∧ n < 0x80000000 then some (BitVec.ofInt 32 n) else none

end StackComputer.RealWord
