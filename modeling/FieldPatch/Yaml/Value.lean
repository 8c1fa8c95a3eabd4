import FieldPatch.Yaml.Document
import FieldPatch.Yaml.Scalar

/-! YAML values: nodes with their scalars interpreted and their aliases resolved. -/

namespace FieldPatch.Yaml

inductive Value where
  | scalar (s : Scalar)
  | sequence (items : List Value)
  | mapping (entries : List (Value × Value))
  | tagged (tag : String) (content : Value)
  deriving Inhabited

/-- Numbers are compared by value, so zeros are equal whatever their sign. -/
def Scalar.same : Scalar → Scalar → Bool
  | .float x, .float y => x.sameNumber y
  | a, b => a == b

mutual

/-- Equality of values; the order of mapping entries does not count. -/
def Value.same : Value → Value → Bool
  | .scalar a, .scalar b => a.same b
  | .sequence xs, .sequence ys => Value.sameItems xs ys
  | .mapping es, .mapping fs => es.length == fs.length && Value.sameEntries fs es
  | .tagged s x, .tagged t y => s == t && x.same y
  | _, _ => false

def Value.sameItems : List Value → List Value → Bool
  | [], [] => true
  | x :: xs, y :: ys => x.same y && Value.sameItems xs ys
  | _, _ => false

/-- Whether every one of some entries is among `fs`. -/
def Value.sameEntries (fs : List (Value × Value)) : List (Value × Value) → Bool
  | [] => true
  | (k, v) :: es => fs.any (fun (l, w) => k.same l && v.same w) && Value.sameEntries fs es

end

/-- Whether a key comes in some entries. -/
def Value.isKeyIn (k : Value) (es : List (Value × Value)) : Bool := es.any fun (l, _) => k.same l

/-- Computations that know the anchored nodes, with a budget of aliases to follow. -/
abbrev Resolving := ReaderT Node.Anchors (StateT Nat Option)

/-- How deep collections may nest. -/
def maxDepth : Nat := 128

/-- The anchored node with a number. Of several the one that starts last counts. -/
def Node.Anchors.find? (anchors : Node.Anchors) (n : Nat) : Option Node :=
  anchors.reverse.lookup n

/-- What a node is once its anchor is set aside or its alias followed. -/
def Node.content : Node → Resolving Node
  | .alias n => do
    let budget ← get
    guard (0 < budget)
    set (budget - 1)
    ((← read).find? n : Option Node)
  | .anchored _ node => return node
  | node => return node

/-- The tag that a value keeps: a local one without its mark. -/
def localTag? (tag : Option String) : Option String :=
  (tag.filter isLocalTag).map fun t => if t == "!" then t else (t.drop 1).toString

def underTag (tag : Option String) (v : Value) : Value :=
  match localTag? tag with
  | some t => .tagged t v
  | none => v

/-- Entries with their keys, which have to be different from each other. -/
def entries (value : Node → Resolving Value) (before : List (Value × Value)) :
    List (Node × Node) → Resolving (List (Value × Value))
  | [] => return before
  | (k, v) :: es => do
    let k ← value k
    guard (!k.isKeyIn before)
    let v ← value v
    entries value (before ++ [(k, v)]) es

/-- The value of a node in which collections may nest `depth` deep. -/
def value : Nat → Node → Resolving Value
  | depth, n => do
    match ← n.content with
    | .scalar tag plain text =>
      return underTag tag (.scalar (← (resolve tag plain text : Option Scalar)))
    | .sequence tag items =>
      match depth with
      | 0 => failure
      | d + 1 => return underTag tag (.sequence (← items.mapM (value d)))
    | .mapping tag es =>
      match depth with
      | 0 => failure
      | d + 1 => return underTag tag (.mapping (← entries (value d) [] es))
    | _ => failure

namespace Document

/-- Runs a computation on the root. As many aliases may be followed as there are places in the
document, a hundred times over. -/
def resolve {α : Type} (d : Document) (f : Node → Resolving α) : Option α :=
  let root := d.root.getD .empty
  ((f root).run (Node.anchors [] root) |>.run (100 * root.size)).map Prod.fst

def value? (d : Document) : Option Value := d.resolve (value maxDepth)

end Document

end FieldPatch.Yaml
