import FieldPatch.Format

/-! Where values come from, and the changes that put them into documents. -/

namespace FieldPatch

/-- Which documents a change is for: the text that each of some selectors has to lead to. -/
abbrev DocumentFilter := List (String × String)

/-- An edit of an included file. -/
structure Edit (α : Type) where
  format : Option Format
  documents : Option DocumentFilter
  key : String
  source : α

inductive Source where
  | literal (text : String)
  | variable (name : String)
  | template (text : String) (bindings : List (String × Source))
  | call (name : String) (arguments : List (String × Source))
  | script (command : String) (arguments environment : List (String × Source))
      (input : Option Source)
  | file (app : Option String) (source : String) (edits : List (Edit Source))
  /-- Steps in order. What a step comes to gets the name it is given, for the later ones. -/
  | pipeline (steps : List (Source × Option String))
  | document (selector : String) (fileSelector : Option String)
  | environment (name : String) (default : Option String)
  | unset
  deriving Inhabited

structure Parameter where
  name : String
  required : Bool
  default : Option String

structure Function where
  name : String
  parameters : List Parameter
  body : Source

/-- A change to the documents of a file. -/
structure Order where
  tag : Option String
  files : Option String
  documents : Option DocumentFilter
  key : String
  source : Source

end FieldPatch
