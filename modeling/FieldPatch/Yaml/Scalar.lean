import FieldPatch.Number.Basic

/-! What plain scalars stand for: null, booleans, integers, floats, and text for the rest. -/

namespace FieldPatch.Yaml

inductive Scalar where
  | null
  | bool (b : Bool)
  | whole (n : Whole)
  | float (x : Binary64)
  | text (s : String)
  deriving DecidableEq

def isNullWord (s : String) : Bool := s == "null" || s == "Null" || s == "NULL" || s == "~"

def boolWord? (s : String) : Option Bool :=
  if s == "true" || s == "True" || s == "TRUE" then some true
  else if s == "false" || s == "False" || s == "FALSE" then some false
  else none

/-- Digits with a needless zero in front are text. -/
def isZeroPadded (cs : List Char) : Bool :=
  match (splitSign cs).2 with
  | '0' :: rest => !rest.isEmpty && rest.all Char.isDigit
  | _ => false

def digitIn? (base : Nat) (c : Char) : Option Nat :=
  let n :=
    if c.isDigit then c.toNat - '0'.toNat
    else if 'a' ≤ c && c ≤ 'z' then c.toNat - 'a'.toNat + 10
    else if 'A' ≤ c && c ≤ 'Z' then c.toNat - 'A'.toNat + 10
    else base
  if n < base then some n else none

/-- Digits of a base, at least one, as a number. -/
def readDigits? (base : Nat) (cs : List Char) : Option Nat :=
  if cs.isEmpty then none
  else cs.foldlM (fun n c => do return n * base + (← digitIn? base c)) 0

/-- The base of a number by the letter behind its zero. -/
def baseOf? : Char → Option Nat
  | 'x' => some 16
  | 'o' => some 8
  | 'b' => some 2
  | _ => none

/-- An integer of any size below `2 ^ 128`, or down to `- 2 ^ 127`. -/
def readInteger? (text : String) : Option Int := do
  let cs := text.toList
  let (negative, body) := splitSign cs
  let inBase : Option Nat := match body with
    | '0' :: letter :: digits => (baseOf? letter).bind fun base => readDigits? base digits
    | _ => none
  let n ← match inBase with
    | some n => some n
    | none => if isZeroPadded cs then none else readDigits? 10 body
  if negative then (if n ≤ 0x80000000000000000000000000000000 then some (-(n : Int)) else none)
  else if n < 0x100000000000000000000000000000000 then some n else none

def infinityWord (s : String) : Bool := s == ".inf" || s == ".Inf" || s == ".INF"

/-- A number with a point or an exponent, or one of the words for infinities and for what is
no number. -/
def readFloat? (text : String) : Option Binary64 :=
  if infinityWord text then some (.infinity false)
  else if text == ".nan" || text == ".NaN" || text == ".NAN" then some .nan
  else match text.toList with
    | '+' :: rest =>
      if infinityWord (String.ofList rest) then some (.infinity false)
      else if rest.head?.any (fun c => c == '+' || c == '-') then none
      else (Binary64.read? rest).filter (·.isFinite)
    | '-' :: rest =>
      if infinityWord (String.ofList rest) then some (.infinity true)
      else (Binary64.read? ('-' :: rest)).filter (·.isFinite)
    | cs => (Binary64.read? cs).filter (·.isFinite)

/-- The integer as a scalar. Integers that need more than 64 bits have no place in a tree. -/
def integerScalar (n : Int) : Option Scalar := (Whole.ofInt? n).map .whole

/-- The meaning of a plain scalar. -/
def resolvePlain (text : String) : Option Scalar :=
  if text.isEmpty || isNullWord text then some .null
  else match boolWord? text with
    | some b => some (.bool b)
    | none =>
      match readInteger? text with
      | some n => integerScalar n
      | none =>
        if isZeroPadded text.toList then some (.text text)
        else match readFloat? text with
          | some x => some (.float x)
          | none => some (.text text)

/-- Whether the tag is one for this document only, which leaves the meaning of its node
alone. -/
def isLocalTag (tag : String) : Bool := tag.startsWith "!"

def coreTag (name : String) : String := "tag:yaml.org,2002:" ++ name

/-- The meaning of a scalar. Under one of the tags of the core types the text has to be of that
type, under any other it is text. -/
def resolve (tag : Option String) (plain : Bool) (text : String) : Option Scalar :=
  match tag with
  | none => if plain then resolvePlain text else some (.text text)
  | some tag =>
    if isLocalTag tag then (if plain then resolvePlain text else some (.text text))
    else if tag == coreTag "bool" then (boolWord? text).map .bool
    else if tag == coreTag "int" then (readInteger? text).bind integerScalar
    else if tag == coreTag "float" then (readFloat? text).map .float
    else if tag == coreTag "null" then (if isNullWord text then some .null else none)
    else some (.text text)

end FieldPatch.Yaml
