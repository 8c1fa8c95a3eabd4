import FieldPatch.Number.Shortest

/-! How the digits of a double are laid out as text. Each written form of numbers is one
record; the printing is shared. -/

namespace FieldPatch

/-- The choices of one written form of doubles. With the digits `d₁…dₙ` standing for
`0.d₁…dₙ * 10 ^ point`, notation is positional while `least ≤ point ≤ greatest`. -/
structure FloatLayout where
  least : Option Int
  greatest : Option Int
  tie : Shortest.Tie
  /-- Whether an integral value ends in `.0`. -/
  pointZero : Bool
  /-- Whether a positive exponent carries its sign. -/
  exponentPlus : Bool
  infinity : String
  negativeInfinity : String
  notANumber : String

namespace FloatLayout

def zeros (n : Nat) : String := String.ofList (List.replicate n '0')

def positional (l : FloatLayout) (d : Decimal) : String :=
  let text := toString d.digits
  let point : Int := d.exponent + text.length
  if d.exponent ≥ 0 then text ++ zeros d.exponent.toNat ++ (if l.pointZero then ".0" else "")
  else if point > 0 then
    String.ofList (text.toList.take point.toNat) ++ "." ++ String.ofList (text.toList.drop point.toNat)
  else "0." ++ zeros (-point).toNat ++ text

def scientific (l : FloatLayout) (d : Decimal) : String :=
  let text := toString d.digits
  let power : Int := d.exponent + text.length - 1
  let mantissa := match text.toList with
    | [] => ""
    | [c] => String.ofList [c]
    | c :: rest => String.ofList (c :: '.' :: rest)
  mantissa ++ "e" ++ (if l.exponentPlus && power ≥ 0 then "+" else "") ++ toString power

def magnitude (l : FloatLayout) (x : Binary64) : String :=
  if x.isZero then (if l.pointZero then "0.0" else "0")
  else
    let d := Shortest.digits l.tie x
    let point : Int := d.exponent + (toString d.digits).length
    if l.least.all (· ≤ point) && l.greatest.all (point ≤ ·) then l.positional d
    else l.scientific d

def render (l : FloatLayout) (x : Binary64) : String :=
  if x.isNaN then l.notANumber
  else if x.isInfinite then (if x.isNegative then l.negativeInfinity else l.infinity)
  else (if x.isNegative then "-" else "") ++ l.magnitude x

/-- Numbers of a document tree: positional from `0.00001` up to sixteen digits before the
point, a signed exponent beyond. -/
def tree : FloatLayout :=
  ⟨some (-4), some 16, .toEven, true, true, "inf", "-inf", "NaN"⟩

/-- Numbers of a YAML document: as in a tree, the exponent without a plus. -/
def yaml : FloatLayout :=
  ⟨some (-4), some 16, .toEven, true, false, ".inf", "-.inf", ".nan"⟩

/-- Numbers written out in full, with no exponent. -/
def full : FloatLayout :=
  ⟨none, none, .up, false, true, "inf", "-inf", "NaN"⟩

/-- Numbers of a TOML document: written out in full, always with a point. -/
def toml : FloatLayout :=
  ⟨none, none, .up, true, true, "inf", "-inf", "nan"⟩

end FloatLayout

end FieldPatch
