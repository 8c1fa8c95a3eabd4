import FieldPatch.Selector.Eval
import FieldPatch.Selector.Parser
import FieldPatch.Tree.Write

/-! Writing at the place a selector selects. Paths of fields and indices are followed
directly and may create their last field; all others are located first. -/

namespace FieldPatch.Selector

/-- Fields and indices. -/
inductive DirectStep where
  | field (name : String)
  | index (i : Int)
  deriving DecidableEq

def DirectStep.ofComponent? : Component → Option DirectStep
  | .field name => some (.field name)
  | .index i => some (.index i)
  | _ => none

/-- The steps of an expression that is a single path of fields and indices. -/
def Expression.directPath? (e : Expression) : Option (List DirectStep) :=
  e.simplePath?.bind fun p => p.mapM DirectStep.ofComponent?

/-- Writes through a direct path; a missing last field is added to its map. -/
def writeDirect (text : String) : List DirectStep → Tree → Written
  | [], t => t.overwrite text
  | [.field name], t =>
    match t with
    | .map es =>
      if (Entries.get? name es).isSome then t.writeField name (Tree.overwrite text)
      else .ok (.map (es ++ [(name, .text text)]), true)
    | _ => t.writeField name (Tree.overwrite text)
  | .field name :: rest, t => t.writeField name (writeDirect text rest)
  | .index i :: rest, t =>
    match t with
    | .array xs => do
      let n ← resolveIndex i xs.length
      t.writeItem n (writeDirect text rest)
    | other => .error (.typeMismatch "array" other.kind)

/-- Locates the selected node and writes over it. -/
def writeLocated (text : String) (e : Expression) (t : Tree) : Written := do
  let l ← locate t e
  t.writeAt (Tree.overwrite text) l

/-- Writes `text` at the place that `e` selects. -/
def set (text : String) (e : Expression) (t : Tree) : Written :=
  match e.directPath? with
  | some steps => writeDirect text steps t
  | none => writeLocated text e t

/-- Parses a selector and reads with it. -/
def query (t : Tree) (selector : String) : Except Error Tree := do
  evaluate t (← parse selector)

/-- Parses a selector and writes with it. -/
def write (t : Tree) (selector text : String) : Written := do
  set text (← parse selector) t

end FieldPatch.Selector
