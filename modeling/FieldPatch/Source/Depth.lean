import FieldPatch.Source.Context

/-! How deep sources nest. -/

namespace FieldPatch.Source

mutual

/-- The greatest number of sources that lie within each other, the outermost included. -/
def depth : Source → Nat
  | .literal _ => 1
  | .variable _ => 1
  | .template _ bindings => depthOfArguments bindings + 1
  | .call _ arguments => depthOfArguments arguments + 1
  | .script _ arguments settings none =>
    max (depthOfArguments arguments) (depthOfArguments settings) + 1
  | .script _ arguments settings (some input) =>
    max (depth input) (max (depthOfArguments arguments) (depthOfArguments settings)) + 1
  | .file _ _ edits => depthOfEdits edits + 1
  | .pipeline steps => depthOfSteps steps + 1
  | .document _ _ => 1
  | .environment _ _ => 1
  | .unset => 1

def depthOfArguments : List (String × Source) → Nat
  | [] => 0
  | (_, s) :: more => max (depth s) (depthOfArguments more)

def depthOfSteps : List (Source × Option String) → Nat
  | [] => 0
  | (s, _) :: more => max (depth s) (depthOfSteps more)

def depthOfEdits : List (Edit Source) → Nat
  | [] => 0
  | ⟨_, _, _, s⟩ :: more => max (depth s) (depthOfEdits more)

end

def depthOfFunctions : List Function → Nat
  | [] => 0
  | f :: fs => depth f.body + depthOfFunctions fs

/-- How deep the evaluation of a source goes in a context at most, if on no way down a function
comes twice. -/
def depthIn (s : Source) (ctx : Context) : Nat := s.depth + depthOfFunctions ctx.functions

end FieldPatch.Source
