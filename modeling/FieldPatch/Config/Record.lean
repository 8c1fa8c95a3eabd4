import FieldPatch.Yaml.Value

/-! Configuration read off YAML nodes by the shape that is wanted, not by what plain scalars
would stand for. Where nothing is written, there is an empty list or record. -/

namespace FieldPatch.Config

open Yaml (Node Resolving)

/-- Reads a node in which collections may nest so many levels deep. -/
abbrev Decoder (α : Type) := Nat → Node → Resolving α

/-- The text of a scalar as it is written. -/
def text : Decoder String := fun _ n => do
  match ← n.content with
  | .scalar _ _ s => return s
  | _ => failure

/-- Whether a node with this content stands for no value. Only plain scalars do; a tag other
than that of null makes them a value. -/
def isAbsent : Node → Resolving Bool
  | .scalar tag plain s =>
    if !plain then return false
    else match tag with
      | none => return s.isEmpty || Yaml.isNullWord s
      | some t =>
        if t == Yaml.coreTag "null" then
          if Yaml.isNullWord s then return true else failure
        else return false
  | _ => return false

def optional {α : Type} (decode : Decoder α) : Decoder (Option α) := fun depth n => do
  let content ← n.content
  if ← isAbsent content then return none else return some (← decode depth content)

/-- Whether nothing is written here. -/
def isBlank : Node → Bool
  | .scalar _ plain s => plain && s.isEmpty
  | _ => false

def list {α : Type} (decode : Decoder α) : Decoder (List α) := fun depth n => do
  match depth, ← n.content with
  | d + 1, .sequence _ items => items.mapM (decode d)
  | _, content => if isBlank content then return [] else failure

/-- Entries with the text of their keys. -/
def textEntries {α : Type} (decode : Decoder α) (depth : Nat) :
    List (Node × Node) → Resolving (List (String × α))
  | [] => return []
  | (k, v) :: es => return (← text depth k, ← decode depth v) :: (← textEntries decode depth es)

/-- A mapping from text to text, sorted by its keys. Of equal keys the last one counts. -/
def textMap : Decoder (List (String × String)) := fun depth n => do
  match depth, ← n.content with
  | d + 1, .mapping _ es =>
    let pairs ← textEntries text d es
    return (Entries.ofPairs pairs).mergeSort fun a b => a.1 ≤ b.1
  | _, content => if isBlank content then return [] else failure

/-- The fields of a record that are given. -/
structure Fields where
  given : List (String × Node)
  /-- Whether they are given by position, so that none may be left out but those that have a
  default. -/
  positional : Bool
  depth : Nat

/-- How the fields of a record are called. -/
structure Shape where
  names : List String
  /-- Other names of fields, with the names they stand for. -/
  aliases : List (String × String)
  /-- Whether fields of other names are refused; else they are passed over. -/
  closed : Bool

def Shape.of (names : List String) : Shape := ⟨names, [], false⟩

/-- The known fields among entries, each of which may come once. -/
def knownFields (shape : Shape) (depth : Nat) :
    List (String × Node) → List (Node × Node) → Resolving (List (String × Node))
  | found, [] => return found
  | found, (k, v) :: es => do
    let written ← text depth k
    let name := (shape.aliases.lookup written).getD written
    if name ∈ shape.names then
      guard (found.lookup name).isNone
      knownFields shape depth (found ++ [(name, v)]) es
    else
      guard (!shape.closed)
      knownFields shape depth found es

/-- A record: a mapping, or a sequence of the fields in their order. -/
def fields (shape : Shape) (depth : Nat) (n : Node) : Resolving Fields := do
  match depth, ← n.content with
  | d + 1, .mapping _ es => return ⟨← knownFields shape d [] es, false, d⟩
  | d + 1, .sequence _ items =>
    guard (items.length ≤ shape.names.length)
    return ⟨shape.names.zip items, true, d⟩
  | _, content => if isBlank content then return ⟨[], false, 0⟩ else failure

def record {α : Type} (shape : Shape) (read : Fields → Resolving α) : Decoder α :=
  fun depth n => do read (← fields shape depth n)

namespace Fields

def required {α : Type} (f : Fields) (name : String) (decode : Decoder α) : Resolving α :=
  match f.given.lookup name with
  | some n => decode f.depth n
  | none => failure

def optional {α : Type} (f : Fields) (name : String) (decode : Decoder α) : Resolving (Option α) :=
  match f.given.lookup name with
  | some n => Config.optional decode f.depth n
  | none => if f.positional then failure else return none

def default {α : Type} (f : Fields) (name : String) (value : α) (decode : Decoder α) : Resolving α :=
  match f.given.lookup name with
  | some n => decode f.depth n
  | none => return value

end Fields

end FieldPatch.Config
