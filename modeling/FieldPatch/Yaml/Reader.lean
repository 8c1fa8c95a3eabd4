import FieldPatch.Error
import FieldPatch.Number.Layout
import FieldPatch.Yaml.Merge

/-! YAML text read as trees. -/

namespace FieldPatch.Yaml

def malformed : Error := .document .malformed

/-- The text of a scalar that is the key of an entry. -/
def Scalar.keyText : Scalar → String
  | .null => "null"
  | .bool b => if b then "true" else "false"
  | .whole n => toString n.value
  | .float x => FloatLayout.yaml.render x
  | .text s => s

/-- A scalar as a tree. Infinities and what is no number have no place there. -/
def Scalar.toTree : Scalar → Except Error Tree
  | .null => .ok .null
  | .bool b => .ok (.bool b)
  | .whole n => .ok (.number (.whole n))
  | .float x =>
    match Number.ofFloat? x with
    | some n => .ok (.number n)
    | none => .error (.document (.unrepresentableNumber (FloatLayout.yaml.render x)))
  | .text s => .ok (.text s)

namespace Value

def keyText : Value → Except Error String
  | .scalar s => .ok s.keyText
  | _ => .error (.document .compoundKey)

mutual

/-- The tree of a value. Tags are dropped; keys of the same text make one entry. -/
def toTree : Value → Except Error Tree
  | .scalar s => s.toTree
  | .sequence items => return .array (← toTrees items)
  | .mapping es => return .map (Entries.ofPairs (← toPairs es))
  | .tagged _ v => toTree v

def toTrees : List Value → Except Error (List Tree)
  | [] => return []
  | v :: vs => return (← toTree v) :: (← toTrees vs)

def toPairs : List (Value × Value) → Except Error (List (String × Tree))
  | [] => return []
  | (k, v) :: es => return (← keyText k, ← toTree v) :: (← toPairs es)

end

end Value

def Document.tree (d : Document) : Except Error Tree :=
  match d.value?.bind Value.merged with
  | some v => v.toTree
  | none => .error malformed

/-- The trees of all documents of a text. -/
def readAll (text : String) : Except Error (List Tree) :=
  (documents text).mapM fun d => match d with
    | some d => d.tree
    | none => .error malformed

/-- The tree of a text that is one document. -/
def read (text : String) : Except Error Tree :=
  match documents text with
  | [some d] => d.tree
  | _ => .error malformed

end FieldPatch.Yaml
