import FieldPatch.Yaml.Value

/-! Merge keys: the entries of the mappings under `<<` join the mapping around it, where it has
no entries of the same keys itself. -/

namespace FieldPatch.Yaml.Value

def isMergeKey : Value → Bool
  | .scalar (.text s) => s == "<<"
  | _ => false

/-- Entries without the one of the merge key. The last entry takes its place. -/
def dropMergeKey {α : Type} : List (Value × α) → List (Value × α)
  | [] => []
  | (k, v) :: es =>
    if k.isMergeKey then
      match es.getLast? with
      | some last => last :: es.dropLast
      | none => []
    else (k, v) :: dropMergeKey es

/-- Adds the entries whose keys are not there yet. -/
def fillFrom {α : Type} (es : List (Value × α)) : List (Value × α) → List (Value × α)
  | [] => es
  | (k, v) :: more =>
    fillFrom (if es.any fun (l, _) => k.same l then es else es ++ [(k, v)]) more

/-- The values of entries, all of which have to be there. -/
def allValues : List (Value × Option Value) → Option (List (Value × Value))
  | [] => some []
  | (k, v) :: es => do return (k, ← v) :: (← allValues es)

mutual

/-- The value with its merge keys resolved; none if something else than mappings is to be
merged. Entries that are merged in are not searched for merge keys of their own level. -/
def merged : Value → Option Value
  | .scalar s => some (.scalar s)
  | .sequence items => (mergedItems items).map .sequence
  | .mapping es => do
    let own := dropMergeKey (mergedEntries es)
    return .mapping (← allValues (fillFrom own (← mergeSource es)))
  | .tagged tag v => (merged v).map (.tagged tag)

def mergedItems : List Value → Option (List Value)
  | [] => some []
  | v :: vs => do return (← merged v) :: (← mergedItems vs)

def mergedEntries : List (Value × Value) → List (Value × Option Value)
  | [] => []
  | (k, v) :: es => (k, merged v) :: mergedEntries es

/-- The entries under the merge key, if there is one. -/
def mergeSource : List (Value × Value) → Option (List (Value × Option Value))
  | [] => some []
  | (k, v) :: es =>
    if k.isMergeKey then
      match v with
      | .mapping source => some (mergedEntries source)
      | .sequence items => mergeSources items
      | _ => none
    else mergeSource es

def mergeSources : List Value → Option (List (Value × Option Value))
  | [] => some []
  | .mapping source :: vs => (mergeSources vs).map (mergedEntries source ++ ·)
  | _ :: _ => none

end

end FieldPatch.Yaml.Value
