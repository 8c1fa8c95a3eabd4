import FieldPatch.Number.Binary64

/-! The decimal digits of a double: the fewest that read back as the same double, and of
those the nearest ones. -/

namespace FieldPatch

/-- The positive number `digits * 10 ^ exponent`. -/
structure Decimal where
  digits : Nat
  exponent : Int
  deriving DecidableEq

namespace Decimal

/-- Moves trailing zeros of the digits into the exponent; `fuel` bounds their number. -/
def dropZeros : Nat → Decimal → Decimal
  | 0, d => d
  | fuel + 1, d =>
    if d.digits % 10 = 0 ∧ d.digits ≠ 0 then dropZeros fuel ⟨d.digits / 10, d.exponent + 1⟩ else d

end Decimal

namespace Shortest

/-- Which of two equally near decimals is taken. -/
inductive Tie where
  | toEven
  | up
  deriving DecidableEq

/-- The reals that read back as one double: from `low` to `high` over `den`, the value itself
being `value / den`; the ends belong to it when `closed`. -/
structure Interval where
  low : Nat
  value : Nat
  high : Nat
  den : Nat
  closed : Bool

/-- Half the gap to the next double on either side. Below a power of two the gap is half as
wide, except at the bottom of the range. -/
def Interval.of (x : Binary64) : Interval :=
  let up := x.exponent.toNat
  let down := (-x.exponent).toNat
  let below := if x.fraction = 0 ∧ 1 < x.exponentField then 1 else 2
  { low := (4 * x.mantissa - below) * twoToThe up
    value := 4 * x.mantissa * twoToThe up
    high := (4 * x.mantissa + 2) * twoToThe up
    den := 4 * twoToThe down
    closed := x.mantissa % 2 = 0 }

/-- Whether `n / scale` lies in the interval. -/
def Interval.has (i : Interval) (n scale : Nat) : Bool :=
  if i.closed then i.low * scale ≤ n * i.den && n * i.den ≤ i.high * scale
  else i.low * scale < n * i.den && n * i.den < i.high * scale

def decimalLength (n : Nat) : Nat := (Nat.toDigits 10 n).length

/-- The `k` with `10 ^ (k - 1) ≤ num / den < 10 ^ k`. -/
def decimalOrder (num den : Nat) : Int :=
  if den ≤ num then decimalLength (num / den)
  else
    let d := decimalLength (den / num)
    if den ≤ num * tenToThe (d - 1) then 2 - (d : Int) else 1 - (d : Int)

/-- The nearest point of the grid of multiples of `10 ^ unit` that lies in the interval, if
one of the two neighbours of the value does. -/
def onGrid (tie : Tie) (i : Interval) (unit : Int) : Option Decimal :=
  let scaleUp := tenToThe unit.toNat
  let scale := tenToThe (-unit).toNat
  let num := i.value * scale
  let den := i.den * scaleUp
  let below := num / den
  let twice := 2 * (num % den)
  let takeAbove : Bool :=
    if twice = den then (match tie with | .toEven => below % 2 = 1 | .up => true)
    else decide (den < twice)
  let lowHit := i.has (below * scaleUp) scale
  let highHit := i.has ((below + 1) * scaleUp) scale
  if lowHit && (!highHit || !takeAbove) then some ⟨below, unit⟩
  else if highHit then some ⟨below + 1, unit⟩
  else none

/-- Grids of `count`, `count + 1`, … digits, until one has a point in the interval. -/
def search (tie : Tie) (i : Interval) (order : Int) : Nat → Nat → Decimal
  | _, 0 => ⟨i.value / i.den, 0⟩
  | count, fuel + 1 =>
    match onGrid tie i (order - count) with
    | some d => d.dropZeros 20
    | none => search tie i order (count + 1) fuel

/-- The shortest digits of a finite double other than zero. Seventeen digits always
suffice. -/
def digits (tie : Tie) (x : Binary64) : Decimal :=
  let i := Interval.of x
  search tie i (decimalOrder i.value i.den) 1 17

end Shortest

end FieldPatch
