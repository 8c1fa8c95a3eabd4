import FieldPatch.Error
import FieldPatch.Toml.Moment

/-! TOML values, and how they become trees and come from them. -/

namespace FieldPatch.Toml

/-- A signed 64-bit integer. -/
structure Integer where
  value : Int
  inRange : -0x8000000000000000 ≤ value ∧ value < 0x8000000000000000
  deriving DecidableEq

def Integer.ofInt? (n : Int) : Option Integer :=
  if h : -0x8000000000000000 ≤ n ∧ n < 0x8000000000000000 then some ⟨n, h⟩ else none

def Integer.toWhole (n : Integer) : Whole :=
  ⟨n.value, n.inRange.1, by have := n.inRange.2; omega⟩

inductive Value where
  | text (s : String)
  | integer (n : Integer)
  | float (x : Binary64)
  | boolean (b : Bool)
  | moment (m : Moment)
  | array (items : List Value)
  | table (entries : List (String × Value))
  deriving Inhabited

/-- A double as a tree. Infinities and what is no number have no place there. -/
def floatTree (x : Binary64) : Except Error Tree :=
  match Number.ofFloat? x with
  | some n => .ok (.number n)
  | none => .error (.document (.unrepresentableNumber (FloatLayout.full.render x)))

/-- A number of a tree as a value: an integer if it is in range, else a double. -/
def ofNumber : Number → Value
  | .whole n =>
    match Integer.ofInt? n.value with
    | some i => .integer i
    | none => .float (.ofInt n.value)
  | .float x _ => .float x

namespace Value

mutual

/-- The tree of a value. Dates and times become text. -/
def toTree : Value → Except Error Tree
  | .text s => .ok (.text s)
  | .integer n => .ok (.number (.whole n.toWhole))
  | .float x => floatTree x
  | .boolean b => .ok (.bool b)
  | .moment m => .ok (.text m.render)
  | .array items => return .array (← toTrees items)
  | .table es => return .map (Entries.ofPairs (← toPairs es))

def toTrees : List Value → Except Error (List Tree)
  | [] => return []
  | v :: vs => return (← toTree v) :: (← toTrees vs)

def toPairs : List (String × Value) → Except Error (List (String × Tree))
  | [] => return []
  | (k, v) :: es => return (k, ← toTree v) :: (← toPairs es)

end

mutual

/-- The value of a tree. There is none for null. -/
def ofTree : Tree → Except Error Value
  | .null => .error (.document .nullInToml)
  | .bool b => .ok (.boolean b)
  | .number n => .ok (ofNumber n)
  | .text s => .ok (.text s)
  | .array items => return .array (← ofTrees items)
  | .map es => return .table (← ofPairs es)

def ofTrees : List Tree → Except Error (List Value)
  | [] => return []
  | t :: ts => return (← ofTree t) :: (← ofTrees ts)

def ofPairs : List (String × Tree) → Except Error (List (String × Value))
  | [] => return []
  | (k, t) :: es => return (k, ← ofTree t) :: (← ofPairs es)

end

end Value

end FieldPatch.Toml
