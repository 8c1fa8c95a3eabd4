import FieldPatch.Selector.Expression
import FieldPatch.Tree.Position

/-! Evaluation of selectors: the first node that gets through all components and all
conditions. -/

namespace FieldPatch.Selector

/-- A node on the way, with its location in the document. A node made on the way, such as a
slice, has no location. -/
structure Cursor where
  node : Tree
  location : Option Location

namespace Cursor

def root (t : Tree) : Cursor := ⟨t, some []⟩

def child (c : Cursor) (s : Segment) (node : Tree) : Cursor :=
  ⟨node, c.location.map (· ++ [s])⟩

def field (c : Cursor) (name : String) : Except Error Cursor :=
  match c.node with
  | .map es =>
    match Entries.get? name es with
    | some v => .ok (c.child (.key name) v)
    | none => .error (.notFound (.field name))
  | other => .error (.typeMismatch "map" other.kind)

def index (c : Cursor) (i : Int) : Except Error Cursor :=
  match c.node with
  | .array xs => do
    let n ← resolveIndex i xs.length
    match xs[n]? with
    | some v => return c.child (.index n) v
    | none => throw (.indexOutOfBounds i xs.length)
  | other => .error (.typeMismatch "array" other.kind)

def slice (c : Cursor) (first last : Option Int) : Except Error Cursor :=
  match c.node with
  | .array xs =>
    let (s, e) := resolveSlice first last xs.length
    .ok ⟨.array ((xs.take e).drop s), none⟩
  | other => .error (.typeMismatch "array" other.kind)

/-- The elements from position `i` on. -/
def elementsFrom (c : Cursor) : Nat → List Tree → List Cursor
  | _, [] => []
  | i, x :: xs => c.child (.index i) x :: c.elementsFrom (i + 1) xs

def elements (c : Cursor) : Except Error (List Cursor) :=
  match c.node with
  | .array xs => .ok (c.elementsFrom 0 xs)
  | other => .error (.typeMismatch "array" other.kind)

end Cursor

/-- What a search comes to: a node, nothing because a condition dropped it, or an error. -/
abbrev Outcome := Except Error (Option Cursor)

/-- The first element that gets through `search`. Elements that fail are passed over. -/
def firstThrough (source : String) (search : Cursor → Outcome) : List Cursor → Outcome
  | [] => .error (.noMatch source)
  | c :: cs =>
    match search c with
    | .ok (some found) => .ok (some found)
    | _ => firstThrough source search cs

/-- Follows a path and goes on with `next` from where it leads. Iteration tries all that
remains on each element in turn. -/
def follow (source : String) (next : Cursor → Outcome) : Path → Cursor → Outcome
  | [], c => next c
  | .each :: rest, c => do firstThrough source (follow source next rest) (← c.elements)
  | .field name :: rest, c => do follow source next rest (← c.field name)
  | .key name :: rest, c => do follow source next rest (← c.field name)
  | .index i :: rest, c => do follow source next rest (← c.index i)
  | .slice first last :: rest, c => do follow source next rest (← c.slice first last)

/-- The scalar text a path leads to, if it leads to a scalar. -/
def scalarAt (source : String) (p : Path) (node : Tree) : Option String :=
  match follow source (fun c => .ok (some c)) p ⟨node, none⟩ with
  | .ok (some c) => c.node.scalarText
  | _ => none

def Comparison.holds (source : String) (c : Comparison) (node : Tree) : Bool :=
  let equal := decide (scalarAt source c.left node = some c.right.render)
  match c.relation with
  | .equal => equal
  | .notEqual => !equal

/-- Runs the steps of a pipeline. -/
def run (source : String) : List Step → Cursor → Outcome
  | [], c => .ok (some c)
  | .path p :: rest, c => follow source (run source rest) p c
  | .select condition :: rest, c =>
    if condition.holds source c.node then run source rest c else .ok none

def resolve (t : Tree) (e : Expression) : Except Error Cursor :=
  match run e.source e.steps (.root t) with
  | .ok (some c) => .ok c
  | .ok none => .error (.noMatch e.source)
  | .error err => .error err

/-- The selected node. -/
def evaluate (t : Tree) (e : Expression) : Except Error Tree :=
  (resolve t e).map Cursor.node

/-- Where the selected node is in the tree. -/
def locate (t : Tree) (e : Expression) : Except Error Location := do
  match (← resolve t e).location with
  | some l => return l
  | none => throw (.evaluation (.notALocation e.source))

end FieldPatch.Selector
