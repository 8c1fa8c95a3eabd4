import FieldPatch.Error
import FieldPatch.Source.Basic
import FieldPatch.Tree.Entries

/-! The parameters of functions: whether they are declared well, and the values that a call gives
them. -/

namespace FieldPatch.Function

/-- The first parameter that is required and has a default all the same. -/
def contradiction? (f : Function) : Option Parameter :=
  f.parameters.find? fun p => p.required && p.default.isSome

def validate (f : Function) : Except Error Unit :=
  match f.contradiction? with
  | some p => .error (.evaluation (.defaultOfRequired p.name f.name))
  | none => .ok ()

/-- The values of the parameters: what is supplied, else the default. -/
def bind (f : Function) (supplied : Entries String) : List Parameter → Except Error (Entries String)
  | [] => .ok []
  | p :: ps => do
    let value := Entries.get? p.name supplied <|> p.default
    if value.isNone && p.required then throw (.evaluation (.missingParameter p.name f.name))
    let more ← bind f supplied ps
    return match value, Entries.get? p.name more with
      | some v, none => (p.name, v) :: more
      | _, _ => more

end FieldPatch.Function
