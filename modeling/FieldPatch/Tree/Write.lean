import FieldPatch.Error

/-! Writing text over the scalars of a tree. A write yields the new tree and whether the
text was not there already. -/

namespace FieldPatch

abbrev Written := Except Error (Tree × Bool)

namespace Tree

/-- The scalar that `text` is when it takes the place of `old`: a number stays a number and
a boolean a boolean if the text can be read as one. -/
def rescalar (old : Tree) (text : String) : Tree :=
  match old with
  | .number _ => ((Number.read? text).map .number).getD (.text text)
  | .bool _ => if text = "true" then .bool true else if text = "false" then .bool false else .text text
  | _ => .text text

/-- Writes `text` over a scalar, unless that is its text already. -/
def overwrite (text : String) (t : Tree) : Written :=
  match t.scalarText with
  | none => .error (.typeMismatch "scalar" t.kind)
  | some current => .ok (if current = text then (t, false) else (t.rescalar text, true))

/-- Applies `write` to one entry of a map. -/
def writeField (name : String) (write : Tree → Written) (t : Tree) : Written :=
  match t with
  | .map es =>
    match Entries.get? name es with
    | none => .error (.notFound (.field name))
    | some v => do
      let (v', changed) ← write v
      return (.map (Entries.put name v' es), changed)
  | other => .error (.typeMismatch "map" other.kind)

/-- Applies `write` to one item of an array. -/
def writeItem (i : Nat) (write : Tree → Written) (t : Tree) : Written :=
  match t with
  | .array xs =>
    match xs[i]? with
    | none => .error (.indexOutOfBounds i xs.length)
    | some v => do
      let (v', changed) ← write v
      return (.array (xs.set i v'), changed)
  | other => .error (.typeMismatch "array" other.kind)

/-- Applies `write` to the node at a location. -/
def writeAt (write : Tree → Written) (t : Tree) : Location → Written
  | [] => write t
  | .key name :: rest =>
    match t with
    | .map _ => t.writeField name fun v => v.writeAt write rest
    | other => .error (.typeMismatch "map or array" other.kind)
  | .index i :: rest =>
    match t with
    | .array _ => t.writeItem i fun v => v.writeAt write rest
    | other => .error (.typeMismatch "map or array" other.kind)

end Tree

end FieldPatch
