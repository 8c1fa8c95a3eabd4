import FieldPatch.Path
import FieldPatch.Source.Basic
import FieldPatch.Tree.Basic

/-! What a source is evaluated in. -/

namespace FieldPatch

structure Context where
  /-- The file that is worked on. -/
  file : String
  document : Option Tree
  bindings : Entries String
  functions : List Function
  /-- The directory that scripts run in. -/
  home : String
  scriptRoots : List String
  fileRoots : List String

namespace Context

/-- The outermost context. Scripts and files are looked up below the home directory. -/
def root (home : String) : Context :=
  { file := "", document := none, bindings := [], functions := [], home,
    scriptRoots := [Path.join home "scripts"], fileRoots := [Path.join home "files"] }

def withVariable (ctx : Context) (name value : String) : Context :=
  { ctx with bindings := Entries.put name value ctx.bindings }

def binding? (ctx : Context) (name : String) : Option String := Entries.get? name ctx.bindings

/-- The first function of a name. -/
def function? (ctx : Context) (name : String) : Option Function :=
  ctx.functions.find? fun f => f.name == name

end Context

end FieldPatch
