import FieldPatch.Error

/-! How the failure of a request is reported: what was being done, and the causes below it. -/

namespace FieldPatch

structure Report where
  message : String
  causes : List String
  deriving DecidableEq

namespace Report

/-- An error by itself. What the operating system says is a cause below it. -/
def ofError (e : Error) : Report :=
  match e with
  | .system fault => ⟨e.message, [fault.message]⟩
  | _ => ⟨e.message, []⟩

def ofFault (f : SystemFault) : Report := ⟨f.message, []⟩

/-- A report below another message. -/
def within (message : String) (r : Report) : Report := ⟨message, r.message :: r.causes⟩

/-- Text whose first line follows `first` and whose other lines follow `later`. -/
def indent (first later : String) (text : String) : String :=
  first ++ ("\n" ++ later).intercalate (text.splitOn "\n")

/-- Causes with their numbers. -/
def numbered (n : Nat) : List String → List String
  | [] => []
  | cause :: more =>
    indent ("".pushn ' ' (5 - (toString n).length) ++ toString n ++ ": ") "       " cause ::
      numbered (n + 1) more

def causeLines : List String → List String
  | [] => []
  | [cause] => ["\n\nCaused by:", indent "    " "    " cause]
  | causes => "\n\nCaused by:" :: numbered 0 causes

def render (r : Report) : String :=
  "Error: " ++ r.message ++ "\n".intercalate (causeLines r.causes) ++ "\n"

end Report

end FieldPatch
