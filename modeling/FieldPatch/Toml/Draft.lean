import FieldPatch.Toml.Value

/-! Tables under construction. How a table came about decides what may still be added to it. -/

namespace FieldPatch.Toml

inductive Origin where
  /-- By a header of its own. -/
  | header
  /-- As part of the header of another table. -/
  | implied
  /-- As part of a dotted key. -/
  | dotted
  deriving DecidableEq

inductive Draft where
  | value (v : Value)
  | table (origin : Origin) (entries : List (String × Draft))
  /-- The tables under repeated headers in double brackets. -/
  | tables (items : List (List (String × Draft)))

namespace Draft

abbrev Body := Entries Draft

/-- Enters a value under a dotted key. `open?` says whether the table reached may take it: the
one that the key starts from, or one that dotted keys made. -/
def insert (name : String) (v : Draft) : Bool → List String → Body → Option Body
  | isOpen, [], es =>
    if isOpen && (Entries.get? name es).isNone then some (es ++ [(name, v)]) else none
  | _, key :: path, es =>
    match Entries.get? key es with
    | none => do return es ++ [(key, .table .dotted (← insert name v true path []))]
    | some (.table .header _) => none
    | some (.table origin inner) => do
      return Entries.put key (.table origin (← insert name v (origin = .dotted) path inner)) es
    | some (.tables items) => do
      let last ← insert name v false path (← items.getLast?)
      return Entries.put key (.tables (items.dropLast ++ [last])) es
    | some (.value _) => none

/-- Changes the table at a path, of repeated tables the last. Tables on the way that are not
there are implied. -/
def update (change : Body → Option Body) : List String → Body → Option Body
  | [], es => change es
  | key :: path, es =>
    match Entries.get? key es with
    | none => do return es ++ [(key, .table .implied (← update change path []))]
    | some (.table origin inner) => do
      return Entries.put key (.table origin (← update change path inner)) es
    | some (.tables items) => do
      let last ← update change path (← items.getLast?)
      return Entries.put key (.tables (items.dropLast ++ [last])) es
    | some (.value _) => none

/-- Adds the table of a header, which `fill` completes. A table that was only implied is taken
up and moves to the end. -/
def addTable (name : String) (fill : Body → Option Body) (es : Body) : Option Body :=
  match Entries.get? name es with
  | none => do return es ++ [(name, .table .header (← fill []))]
  | some (.table .implied inner) => do
    return es.filter (fun e => e.1 ≠ name) ++ [(name, .table .header (← fill inner))]
  | _ => none

/-- Adds one more of the tables of a repeated header. -/
def addRepeated (name : String) (fill : Body → Option Body) (es : Body) : Option Body :=
  match Entries.get? name es with
  | none => do return es ++ [(name, .tables [← fill []])]
  | some (.tables items) => do return Entries.put name (.tables (items ++ [← fill []])) es
  | _ => none

mutual

def toValue : Draft → Value
  | .value v => v
  | .table _ es => .table (toEntries es)
  | .tables items => .array (toTables items)

def toEntries : List (String × Draft) → List (String × Value)
  | [] => []
  | (k, d) :: es => (k, toValue d) :: toEntries es

def toTables : List (List (String × Draft)) → List Value
  | [] => []
  | es :: more => .table (toEntries es) :: toTables more

end

end Draft

end FieldPatch.Toml
