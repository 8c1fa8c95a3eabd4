import FieldPatch.Json.Text
import FieldPatch.Tree.Basic

/-! Trees written as JSON: on one line without spaces, or indented by two. -/

namespace FieldPatch.Json

def renderScalar : Tree → String
  | .null => "null"
  | .bool b => if b then "true" else "false"
  | .number n => n.render
  | .text s => renderText s
  | .array _ => "[]"
  | .map _ => "\x7b\x7d"

mutual

/-- The tree on one line. -/
def compact : Tree → String
  | .array xs => "[" ++ compactItems xs ++ "]"
  | .map es => "\x7b" ++ compactMembers es ++ "\x7d"
  | t => renderScalar t

def compactItems : List Tree → String
  | [] => ""
  | [x] => compact x
  | x :: xs => compact x ++ "," ++ compactItems xs

def compactMembers : List (String × Tree) → String
  | [] => ""
  | [(k, x)] => renderText k ++ ":" ++ compact x
  | (k, x) :: es => renderText k ++ ":" ++ compact x ++ "," ++ compactMembers es

end

def indentation (depth : Nat) : String := "\n" ++ String.ofList (List.replicate (2 * depth) ' ')

mutual

/-- The tree over several lines, at `depth` levels of indentation. -/
def indented (depth : Nat) : Tree → String
  | .array [] => "[]"
  | .array (x :: xs) =>
    "[" ++ indentation (depth + 1) ++ indented (depth + 1) x ++ indentedItems (depth + 1) xs ++
      indentation depth ++ "]"
  | .map [] => "\x7b\x7d"
  | .map ((k, x) :: es) =>
    "\x7b" ++ indentation (depth + 1) ++ renderText k ++ ": " ++ indented (depth + 1) x ++
      indentedMembers (depth + 1) es ++ indentation depth ++ "\x7d"
  | t => renderScalar t

def indentedItems (depth : Nat) : List Tree → String
  | [] => ""
  | x :: xs => "," ++ indentation depth ++ indented depth x ++ indentedItems depth xs

def indentedMembers (depth : Nat) : List (String × Tree) → String
  | [] => ""
  | (k, x) :: es =>
    "," ++ indentation depth ++ renderText k ++ ": " ++ indented depth x ++ indentedMembers depth es

end

def render (t : Tree) : String := indented 0 t

end FieldPatch.Json
