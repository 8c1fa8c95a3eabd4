import FieldPatch.Selector.Write

/-! Selectors on the documents of a stream. Documents where a selector leads nowhere are passed
over, as long as there are others. -/

namespace FieldPatch.Selector

inductive StreamFault where
  | noDocuments
  /-- The selector leads nowhere in all documents, in the first one for this reason. -/
  | unresolved (e : Error)
  | failed (e : Error)

/-- The node in the first document where the selector leads to one. -/
def findFirst (e : Expression) : List Tree → Except StreamFault Tree
  | [] => .error .noDocuments
  | t :: ts =>
    match evaluate t e with
    | .ok node => .ok node
    | .error err =>
      if !err.isUnresolved then .error (.failed err)
      else match findFirst e ts with
        | .ok node => .ok node
        | .error (.failed other) => .error (.failed other)
        | .error _ => .error (.unresolved err)

/-- Writes to all documents, and says of each one whether it changed or why it could not be
written. -/
def setEach (text : String) (e : Expression) :
    List Tree → Except Error (List Tree × List (Except Error Bool))
  | [] => .ok ([], [])
  | t :: ts =>
    match set text e t with
    | .ok (t', changed) => do
      let (ts', rest) ← setEach text e ts
      return (t' :: ts', .ok changed :: rest)
    | .error err =>
      if !err.isUnresolved then .error err
      else do
        let (ts', rest) ← setEach text e ts
        return (t :: ts', .error err :: rest)

/-- Whether a document changed, if one could be written, or why the first could not be. -/
def summary : List (Except Error Bool) → Except StreamFault Bool
  | [] => .error .noDocuments
  | .ok changed :: rest =>
    match summary rest with
    | .ok more => .ok (changed || more)
    | .error _ => .ok changed
  | .error err :: rest =>
    match summary rest with
    | .ok more => .ok more
    | .error _ => .error (.unresolved err)

/-- Writes to all documents where the selector leads somewhere, and says whether any changed. -/
def setAll (text : String) (e : Expression) (docs : List Tree) :
    Except StreamFault (List Tree × Bool) := do
  let (docs', outcomes) ← (setEach text e docs).mapError .failed
  return (docs', ← summary outcomes)

end FieldPatch.Selector
