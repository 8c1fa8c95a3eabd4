import FieldPatch.Number.Binary64

/-! Decimal text read as numbers: integers with an optional sign, and doubles in ordinary
or scientific notation. -/

namespace FieldPatch

namespace Digits

/-- The number that a run of decimal digits stands for, in front of which `start` stands. -/
def value (start : Nat) (cs : List Char) : Nat :=
  cs.foldl (fun n c => 10 * n + (c.toNat - '0'.toNat)) start

def split (cs : List Char) : List Char × List Char :=
  (cs.takeWhile Char.isDigit, cs.dropWhile Char.isDigit)

end Digits

/-- An optional sign and what follows it. -/
def splitSign : List Char → Bool × List Char
  | '-' :: cs => (true, cs)
  | '+' :: cs => (false, cs)
  | cs => (false, cs)

/-- A decimal integer: an optional sign, then digits only. -/
def readInt? (cs : List Char) : Option Int :=
  let (negative, body) := splitSign cs
  if body.isEmpty || !body.all Char.isDigit then none
  else some (if negative then -(Digits.value 0 body : Int) else Digits.value 0 body)

/-- Whether a signed 64-bit integer can hold the value. -/
def fitsSigned64 (n : Int) : Bool := -0x8000000000000000 ≤ n && n < 0x8000000000000000

/-- A decimal integer in the range of signed 64-bit integers. -/
def readSigned64? (cs : List Char) : Option Int :=
  (readInt? cs).filter fitsSigned64

/-- The exponent part of a number, `e` with an optional sign and digits; nothing at all
stands for zero. -/
def readExponent? : List Char → Option Int
  | [] => some 0
  | c :: cs => if c = 'e' || c = 'E' then readInt? cs else none

namespace Binary64

/-- A number without its sign: digits with at most one point, at least one digit, then an
optional exponent. -/
def readMagnitude? (negative : Bool) (cs : List Char) : Option Binary64 :=
  let (whole, rest) := Digits.split cs
  let (frac, rest) := match rest with
    | '.' :: r => Digits.split r
    | r => ([], r)
  if whole.isEmpty && frac.isEmpty then none
  else do
    let e ← readExponent? rest
    return ofDecimal negative (Digits.value (Digits.value 0 whole) frac) (e - frac.length)

/-- Decimal text as the nearest double; `inf`, `infinity` and `nan` in any case are
accepted too. -/
def read? (cs : List Char) : Option Binary64 :=
  let (negative, body) := splitSign cs
  let lower := body.map Char.toLower
  if lower == "inf".toList || lower == "infinity".toList then some (infinity negative)
  else if lower == "nan".toList then some nan
  else readMagnitude? negative body

end Binary64

end FieldPatch
