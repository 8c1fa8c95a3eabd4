/-! Selector expressions: a pipeline of paths and of conditions on the node reached. -/

namespace FieldPatch.Selector

inductive Component where
  /-- `.name` -/
  | field (name : String)
  /-- `["name"]`; never an index, whatever the name is. -/
  | key (name : String)
  /-- `[2]`, `[-1]` -/
  | index (i : Int)
  /-- `[a:b]`, either bound optional -/
  | slice (first last : Option Int)
  /-- `[]` -/
  | each
  deriving DecidableEq

/-- The empty path is the identity. -/
abbrev Path := List Component

inductive Literal where
  | text (s : String)
  | integer (n : Int)
  deriving DecidableEq

def Literal.render : Literal → String
  | .text s => s
  | .integer n => toString n

inductive Relation where
  | equal
  | notEqual
  deriving DecidableEq

structure Comparison where
  left : Path
  relation : Relation
  right : Literal
  deriving DecidableEq

inductive Step where
  | path (p : Path)
  /-- `select(left == right)`: keeps the node or drops it. -/
  | select (condition : Comparison)
  deriving DecidableEq

structure Expression where
  /-- The text that was parsed. -/
  source : String
  steps : List Step
  deriving DecidableEq

/-- The components of an expression that is one path without iteration. -/
def Expression.simplePath? (e : Expression) : Option Path :=
  match e.steps with
  | [.path p] => if Component.each ∈ p then none else some p
  | _ => none

end FieldPatch.Selector
