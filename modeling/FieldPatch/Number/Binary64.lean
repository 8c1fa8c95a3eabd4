/-! Doubles by their bits, with exact integer arithmetic for the two directions that
matter here: reading a ratio to the nearest double, and taking a double apart. -/

namespace FieldPatch

def twoToThe (n : Nat) : Nat := Nat.pow 2 n

def tenToThe (n : Nat) : Nat := Nat.pow 10 n

/-- A double-precision number, as its sixty-four bits. -/
structure Binary64 where
  bits : UInt64
  deriving DecidableEq

namespace Binary64

def isNegative (x : Binary64) : Bool := decide (0x8000000000000000 ≤ x.bits.toNat)

def exponentField (x : Binary64) : Nat := x.bits.toNat / 0x10000000000000 % 2048

def fraction (x : Binary64) : Nat := x.bits.toNat % 0x10000000000000

def isFinite (x : Binary64) : Bool := x.exponentField != 2047

def isInfinite (x : Binary64) : Bool := x.exponentField == 2047 && x.fraction == 0

def isNaN (x : Binary64) : Bool := x.exponentField == 2047 && x.fraction != 0

def isZero (x : Binary64) : Bool := x.exponentField == 0 && x.fraction == 0

/-- The magnitude of a finite double is `mantissa * 2 ^ exponent`. -/
def mantissa (x : Binary64) : Nat :=
  if x.exponentField = 0 then x.fraction else 0x10000000000000 + x.fraction

def exponent (x : Binary64) : Int :=
  if x.exponentField = 0 then -1074 else (x.exponentField : Int) - 1075

/-- A sign and the remaining sixty-three bits. -/
def ofMagnitude (negative : Bool) (magnitude : Nat) : Binary64 :=
  ⟨UInt64.ofNat ((if negative then 0x8000000000000000 else 0) + magnitude)⟩

def zero (negative : Bool) : Binary64 := ofMagnitude negative 0

def infinity (negative : Bool) : Binary64 := ofMagnitude negative (2047 * 0x10000000000000)

def nan : Binary64 := ofMagnitude false (2047 * 0x10000000000000 + 0x8000000000000)

/-- Equality of numbers: zeros are equal whatever their sign, and so are all NaNs. -/
def sameNumber (x y : Binary64) : Bool :=
  x == y || (x.isZero && y.isZero) || (x.isNaN && y.isNaN)

/-- The integer nearest to `num / den`; a tie goes to the even one. -/
def roundHalfEven (num den : Nat) : Nat :=
  let whole := num / den
  let twice := 2 * (num % den)
  if twice < den then whole
  else if den < twice then whole + 1
  else whole + whole % 2

/-- The largest `e` with `2 ^ e ≤ num / den`. -/
def binaryOrder (num den : Nat) : Int :=
  let guess : Int := (Nat.log2 num : Int) - (Nat.log2 den : Int)
  if den * twoToThe guess.toNat ≤ num * twoToThe (-guess).toNat then guess else guess - 1

/-- The double nearest to `num / den`, ties to even, infinite when it is out of range. The
mantissa is added to the exponent bits, so that a carry out of it raises the exponent. -/
def ofRatio (negative : Bool) (num den : Nat) : Binary64 :=
  if num = 0 then zero negative
  else
    let unit := max (binaryOrder num den - 52) (-1074)
    let mantissa := roundHalfEven (num * twoToThe (-unit).toNat) (den * twoToThe unit.toNat)
    ofMagnitude negative (min ((unit + 1074).toNat * 0x10000000000000 + mantissa) (2047 * 0x10000000000000))

/-- The double nearest to `digits * 10 ^ exponent`. Exponents far outside the range of a
double are settled without computing the power. -/
def ofDecimal (negative : Bool) (digits : Nat) (exponent : Int) : Binary64 :=
  if digits = 0 then zero negative
  else if exponent > 400 then infinity negative
  else if exponent + (Nat.log2 digits / 3 + 1 : Nat) < -330 then zero negative
  else ofRatio negative (digits * tenToThe exponent.toNat) (tenToThe (-exponent).toNat)

/-- The double nearest to an integer. -/
def ofInt (n : Int) : Binary64 := ofRatio (n < 0) n.natAbs 1

/-- The product with a power of ten that is itself a double, rounded twice: once for the
power, once for the product. -/
def scaleUp (x power : Binary64) : Binary64 :=
  ofRatio x.isNegative
    (x.mantissa * power.mantissa * twoToThe (x.exponent + power.exponent).toNat)
    (twoToThe (-(x.exponent + power.exponent)).toNat)

/-- The quotient by a power of ten that is itself a double, rounded once more. -/
def scaleDown (x power : Binary64) : Binary64 :=
  ofRatio x.isNegative
    (x.mantissa * twoToThe (x.exponent - power.exponent).toNat)
    (power.mantissa * twoToThe (power.exponent - x.exponent).toNat)

/-- The power of ten nearest to `10 ^ n`. -/
def powerOfTen (n : Nat) : Binary64 := ofDecimal false 1 n

end Binary64

end FieldPatch
