/-! The nodes of a YAML document as they are written: scalars not yet interpreted, anchors and
aliases not yet resolved. -/

namespace FieldPatch.Yaml

inductive Node where
  /-- Stands for the anchored node with this number. -/
  | alias (anchor : Nat)
  | scalar (tag : Option String) (plain : Bool) (text : String)
  | sequence (tag : Option String) (items : List Node)
  | mapping (tag : Option String) (entries : List (Node × Node))
  /-- A node that aliases can refer to by a number. -/
  | anchored (anchor : Nat) (node : Node)
  deriving Inhabited

namespace Node

/-- What stands where nothing is written. -/
def empty : Node := .scalar none true ""

mutual

/-- How many places the node takes in its document; a collection has a beginning and an end. -/
def size : Node → Nat
  | .alias _ => 1
  | .scalar .. => 1
  | .sequence _ items => sizeOfItems items + 2
  | .mapping _ entries => sizeOfEntries entries + 2
  | .anchored _ node => size node

def sizeOfItems : List Node → Nat
  | [] => 0
  | n :: ns => size n + sizeOfItems ns

def sizeOfEntries : List (Node × Node) → Nat
  | [] => 0
  | (k, v) :: es => size k + size v + sizeOfEntries es

end

abbrev Anchors := List (Nat × Node)

mutual

/-- The anchored nodes, in the order in which they start, put in front of `after`. -/
def anchors (after : Anchors) : Node → Anchors
  | .alias _ => after
  | .scalar .. => after
  | .sequence _ items => anchorsOfItems after items
  | .mapping _ entries => anchorsOfEntries after entries
  | .anchored anchor node => (anchor, node) :: anchors after node

def anchorsOfItems (after : Anchors) : List Node → Anchors
  | [] => after
  | n :: ns => anchors (anchorsOfItems after ns) n

def anchorsOfEntries (after : Anchors) : List (Node × Node) → Anchors
  | [] => after
  | (k, v) :: es => anchors (anchors (anchorsOfEntries after es) v) k

end

end Node

/-- A document: its root, none if the whole text is empty. -/
structure Document where
  root : Option Node

end FieldPatch.Yaml
