import FieldPatch.Path.Glob
import FieldPatch.Selector.Write
import FieldPatch.Source.Basic

/-! What a change is for: which runs, which files, and which documents of a file. -/

namespace FieldPatch

namespace Order

/-- A change without a tag is for every run, one with a tag for runs that ask for no other. -/
def isForTag (o : Order) (wanted : Option String) : Bool :=
  match o.tag, wanted with
  | some tag, some w => tag == w
  | _, _ => true

/-- Whether a change is for a file. There is no failure here: the expression that a pattern stands
for is always well formed, and how large it may be is left open. -/
def isForFile (o : Order) (path : String) : Bool :=
  o.files.all fun pattern => Path.fits pattern path

end Order

namespace DocumentFilter

/-- The selector of a key, which may be written without the dot at its start. -/
def selectorText (key : String) : String :=
  if key.startsWith "." || key.startsWith "[" then key else "." ++ key

/-- Whether a selector leads to a scalar of the expected text. One that leads nowhere does
not. -/
def holds (t : Tree) (e : Selector.Expression) (expected : String) : Except Error Bool :=
  match Selector.evaluate t e with
  | .ok node => .ok (node.scalarText == some expected)
  | .error err => if err.isUnresolved then .ok false else .error err

/-- Whether all selectors of a filter lead to what they should. -/
def accepts (t : Tree) : DocumentFilter → Except Error Bool
  | [] => .ok true
  | (key, expected) :: more => do
    let e ← Selector.parse (selectorText key)
    if ← holds t e expected then accepts t more else return false

end DocumentFilter

end FieldPatch
