import FieldPatch.Number.Layout
import FieldPatch.Number.Reading

/-! The numbers of a document tree: 64-bit integers, signed or unsigned, and finite
doubles. -/

namespace FieldPatch

/-- An integer from the least signed to the greatest unsigned 64-bit one. -/
structure Whole where
  value : Int
  inRange : -0x8000000000000000 ≤ value ∧ value < 0x10000000000000000
  deriving DecidableEq

def Whole.ofInt? (n : Int) : Option Whole :=
  if h : -0x8000000000000000 ≤ n ∧ n < 0x10000000000000000 then some ⟨n, h⟩ else none

inductive Number where
  | whole (n : Whole)
  | float (x : Binary64) (finite : x.isFinite = true)
  deriving DecidableEq

namespace Number

def ofFloat? (x : Binary64) : Option Number :=
  if h : x.isFinite = true then some (.float x h) else none

def ofInt? (n : Int) : Option Number := (Whole.ofInt? n).map .whole

def render : Number → String
  | .whole n => toString n.value
  | .float x _ => FloatLayout.tree.render x

/-- Text as a number: an integer if it is one in the signed range, else a finite double. -/
def read? (text : String) : Option Number :=
  match readSigned64? text.toList with
  | some n => ofInt? n
  | none => (Binary64.read? text.toList).bind ofFloat?

end Number

end FieldPatch
