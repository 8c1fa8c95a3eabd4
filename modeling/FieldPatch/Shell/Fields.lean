import FieldPatch.Shell.Script

/-! The fields that an expanded word makes. Blanks part fields only where they come from values
that are not quoted. -/

namespace FieldPatch.Shell

inductive Fragment where
  | solid (s : Text)
  | loose (s : Text)
  /-- The end of a field. -/
  | gap

/-- Fields that are complete, and the one that is not yet. -/
structure Fields where
  complete : List Text
  pending : Option Text

namespace Fields

def close (f : Fields) : Fields := ⟨f.complete ++ f.pending.toList, none⟩

def extend (f : Fields) (s : Text) : Fields := { f with pending := some (f.pending.getD [] ++ s) }

def addChar (f : Fields) (c : Char) : Fields :=
  if c == ' ' || c == '\t' || c == '\n' then f.close else f.extend [c]

def add (f : Fields) : Fragment → Fields
  | .solid s => f.extend s
  | .loose s => s.foldl addChar f
  | .gap => f.close

end Fields

def fieldsOf (fragments : List Fragment) : List Text :=
  (fragments.foldl Fields.add ⟨[], none⟩).close.complete

/-- The fragments as one text. -/
def joined : List Fragment → Text
  | [] => []
  | .solid s :: fs => s ++ joined fs
  | .loose s :: fs => s ++ joined fs
  | .gap :: fs => ' ' :: joined fs

end FieldPatch.Shell
