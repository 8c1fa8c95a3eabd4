import FieldPatch.Number.Basic

/-! Numbers of JSON text. Digits are gathered in a 64-bit significand; those that no longer
fit only count for the magnitude. A double is the significand times or over a power of ten,
rounded at each step. -/

namespace FieldPatch.Json

/-- The part of a number read so far: `significand * 10 ^ exponent`. `full` means that the
significand takes no more digits. -/
structure Scaled where
  significand : Nat
  exponent : Int
  full : Bool

/-- One more digit before the point. -/
def Scaled.wholeDigit (s : Scaled) (d : Nat) : Scaled :=
  let next := 10 * s.significand + d
  if s.full || 0x10000000000000000 ≤ next then { s with exponent := s.exponent + 1, full := true }
  else { s with significand := next }

/-- One more digit behind the point. -/
def Scaled.fractionDigit (s : Scaled) (d : Nat) : Scaled :=
  let next := 10 * s.significand + d
  if s.full || 0x10000000000000000 ≤ next then { s with full := true }
  else { s with significand := next, exponent := s.exponent - 1 }

def digitOf (c : Char) : Nat := c.toNat - '0'.toNat

/-- The digits behind the point. The first of them has another try at the significand. -/
def Scaled.withFraction (s : Scaled) (digits : List Char) : Scaled :=
  digits.foldl (fun s c => s.fractionDigit (digitOf c)) { s with full := false }

/-- Divides by ten to the power `n`, in steps of at most 308. -/
def divideByPower (x : Binary64) : Nat → Nat → Binary64
  | 0, _ => x
  | fuel + 1, n =>
    if n ≤ 308 then x.scaleDown (.powerOfTen n)
    else if x.isZero then x
    else divideByPower (x.scaleDown (.powerOfTen 308)) fuel (n - 308)

/-- The double that a significand and an exponent make, if it is in range. -/
def Scaled.toFloat? (negative : Bool) (s : Scaled) : Option Binary64 :=
  let x := Binary64.ofRatio negative s.significand 1
  if 0 ≤ s.exponent then
    if s.exponent ≤ 308 then
      let y := x.scaleUp (.powerOfTen s.exponent.toNat)
      if y.isFinite then some y else none
    else if x.isZero then some x else none
  else some (divideByPower x 8 (-s.exponent).toNat)

/-- The exponent of a number behind its `e`: a sign or none, then at least one digit. -/
def readPower? (cs : List Char) : Option (Int × List Char) :=
  let (negative, body) := splitSign cs
  let (digits, rest) := Digits.split body
  if digits.isEmpty then none
  else
    let n : Int := Digits.value 0 digits
    some (if negative then -n else n, rest)

/-- Applies a written exponent. One beyond 32 bits leaves zero as it is and makes everything
else zero or too large. -/
def Scaled.withPower? (negative : Bool) (s : Scaled) (power : Int) : Option Binary64 :=
  if power.natAbs < 0x80000000 then { s with exponent := s.exponent + power }.toFloat? negative
  else if 0 < power ∧ s.significand ≠ 0 then none
  else some (.zero negative)

def finishFloat? (negative : Bool) (s : Scaled) : List Char → Option (Number × List Char)
  | c :: cs =>
    if c = 'e' || c = 'E' then do
      let (power, rest) ← readPower? cs
      let x ← s.withPower? negative power
      return (← Number.ofFloat? x, rest)
    else do return (← (s.toFloat? negative).bind Number.ofFloat?, c :: cs)
  | [] => do return (← (s.toFloat? negative).bind Number.ofFloat?, [])

/-- The integer of the given sign and size, a double when it fits no 64-bit integer or is
minus zero. -/
def integerNumber? (negative : Bool) (n : Nat) : Option Number :=
  if negative then
    if n = 0 ∨ 0x8000000000000000 < n then Number.ofFloat? (Binary64.ofRatio true n 1)
    else Number.ofInt? (-(n : Int))
  else Number.ofInt? n

/-- A number without its sign. -/
def readUnsigned? (negative : Bool) (cs : List Char) : Option (Number × List Char) :=
  let (digits, rest) := Digits.split cs
  if digits.isEmpty || (digits.head? == some '0' && digits.length != 1) then none
  else
    let s := digits.foldl (fun s c => s.wholeDigit (digitOf c)) ⟨0, 0, false⟩
    match rest with
    | '.' :: behind =>
      let (fraction, rest) := Digits.split behind
      if fraction.isEmpty then none
      else finishFloat? negative (s.withFraction fraction) rest
    | c :: _ =>
      if c = 'e' || c = 'E' || s.full then finishFloat? negative s rest
      else do return (← integerNumber? negative s.significand, rest)
    | [] =>
      if s.full then finishFloat? negative s rest
      else do return (← integerNumber? negative s.significand, rest)

def readNumber? : List Char → Option (Number × List Char)
  | '-' :: cs => readUnsigned? true cs
  | cs => readUnsigned? false cs

end FieldPatch.Json
