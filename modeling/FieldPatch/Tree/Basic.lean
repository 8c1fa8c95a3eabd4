import FieldPatch.Number.Basic
import FieldPatch.Tree.Entries

/-! Document trees: what a YAML, TOML or JSON document is read into, with its kinds and the
text of its scalars. -/

namespace FieldPatch

inductive Tree where
  | null
  | bool (b : Bool)
  | number (n : Number)
  | text (s : String)
  | array (items : List Tree)
  | map (entries : List (String × Tree))
  deriving Inhabited

inductive Kind where
  | null
  | boolean
  | number
  | string
  | array
  | map
  deriving DecidableEq

def Kind.name : Kind → String
  | .null => "null"
  | .boolean => "boolean"
  | .number => "number"
  | .string => "string"
  | .array => "array"
  | .map => "map"

namespace Tree

def kind : Tree → Kind
  | .null => .null
  | .bool _ => .boolean
  | .number _ => .number
  | .text _ => .string
  | .array _ => .array
  | .map _ => .map

/-- The text of a scalar. Maps and arrays have none. -/
def scalarText : Tree → Option String
  | .null => some ""
  | .bool b => some (if b then "true" else "false")
  | .number n => some n.render
  | .text s => some s
  | .array _ => none
  | .map _ => none

end Tree

/-- One step of the way from the root of a tree to a node. -/
inductive Segment where
  | key (name : String)
  | index (i : Nat)
  deriving DecidableEq

abbrev Location := List Segment

namespace Tree

/-- The child that a segment names. -/
def child? : Tree → Segment → Option Tree
  | .map es, .key name => Entries.get? name es
  | .array xs, .index i => xs[i]?
  | _, _ => none

/-- The node at a location. -/
def get? (t : Tree) : Location → Option Tree
  | [] => some t
  | s :: rest => (t.child? s).bind fun c => c.get? rest

@[simp] theorem get?_nil (t : Tree) : t.get? [] = some t := rfl

theorem get?_append (p q : Location) (t : Tree) :
    t.get? (p ++ q) = (t.get? p).bind fun u => u.get? q := by
  induction p generalizing t with
  | nil => rfl
  | cons s p ih =>
    simp only [List.cons_append, get?]
    cases t.child? s with
    | none => rfl
    | some u => simpa using ih u

end Tree

end FieldPatch
