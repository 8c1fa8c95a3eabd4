import FieldPatch.Toml.Text
import FieldPatch.Toml.Value

/-! TOML values written as documents: what a table holds itself comes first, then the tables
within it, each under its header. -/

namespace FieldPatch.Toml

def renderScalar : Value → String
  | .text s => renderText s
  | .integer n => toString n.value
  | .float x => FloatLayout.toml.render x
  | .boolean b => if b then "true" else "false"
  | .moment m => m.render
  | .array _ => "[]"
  | .table _ => "\x7b\x7d"

mutual

/-- A value on the line of its key. -/
def inline : Value → String
  | .array (v :: vs) => "[" ++ inline v ++ inlineItems vs ++ "]"
  | .table ((k, v) :: es) => "\x7b " ++ renderKey k ++ " = " ++ inline v ++ inlineEntries es ++ " \x7d"
  | v => renderScalar v

def inlineItems : List Value → String
  | [] => ""
  | v :: vs => ", " ++ inline v ++ inlineItems vs

def inlineEntries : List (String × Value) → String
  | [] => ""
  | (k, v) :: es => ", " ++ renderKey k ++ " = " ++ inline v ++ inlineEntries es

end

def isTable : Value → Bool
  | .table _ => true
  | _ => false

/-- Whether a value has a section of its own: a table, or an array of nothing but tables. -/
def isSection : Value → Bool
  | .table _ => true
  | .array (v :: vs) => (v :: vs).all isTable
  | _ => false

/-- The lines of a table for what it holds itself. -/
def ownLines (es : List (String × Value)) : String :=
  String.join ((es.filter fun e => !isSection e.2).map fun (k, v) => renderKey k ++ " = " ++ inline v ++ "\n")

def renderPath (path : List String) : String := ".".intercalate (path.map renderKey)

/-- The section of a table itself. The root has no header, and a table that only holds other
tables needs none. -/
def ownSection (path : List String) (repeated : Bool) (es : List (String × Value)) : List String :=
  let lines := ownLines es
  if path.isEmpty then (if lines.isEmpty then [] else [lines])
  else if repeated then ["[[" ++ renderPath path ++ "]]\n" ++ lines]
  else if lines.isEmpty && !es.isEmpty then []
  else ["[" ++ renderPath path ++ "]\n" ++ lines]

mutual

/-- The sections of a table at a path, with those of the tables within it. -/
def sections (path : List String) (repeated : Bool) : Value → List String
  | .table es => ownSection path repeated es ++ innerSections path es
  | _ => []

def innerSections (path : List String) : List (String × Value) → List String
  | [] => []
  | (k, .array vs) :: es =>
    (if isSection (.array vs) then repeatedSections (path ++ [k]) vs else []) ++ innerSections path es
  | (k, v) :: es => sections (path ++ [k]) false v ++ innerSections path es

def repeatedSections (path : List String) : List Value → List String
  | [] => []
  | v :: vs => sections path true v ++ repeatedSections path vs

end

/-- A document, whose root has to be a table. -/
def renderValue : Value → Except Error String
  | .table es => .ok ("\n".intercalate (sections [] false (.table es)))
  | _ => .error (.document .malformed)

/-- The tree as a document. -/
def render (t : Tree) : Except Error String := Value.ofTree t >>= renderValue

end FieldPatch.Toml
