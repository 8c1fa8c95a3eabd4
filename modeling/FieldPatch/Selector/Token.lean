import FieldPatch.Text.Quoted

/-! The lexemes of selector text. -/

namespace FieldPatch.Selector

inductive Token where
  | integer (n : Int)
  /-- A quoted string, its escapes resolved; `single` tells which quote enclosed it. -/
  | text (value : String) (single : Bool)
  | word (name : String)
  | dot
  | pipe
  | comma
  | colon
  | openParen
  | closeParen
  | openBracket
  | closeBracket
  | equal
  | notEqual
  | finish
  deriving DecidableEq

/-- A token and the number of characters before it. -/
structure Placed where
  position : Nat
  token : Token
  deriving DecidableEq

/-- How messages name a token. -/
def Token.describe : Token → String
  | .integer n => "Integer(" ++ toString n ++ ")"
  | .text value single =>
    "String \x7b value: " ++ quoted value ++ ", single: " ++ (if single then "true" else "false") ++ " \x7d"
  | .word name => "Ident(" ++ quoted name ++ ")"
  | .dot => "Dot"
  | .pipe => "Pipe"
  | .comma => "Comma"
  | .colon => "Colon"
  | .openParen => "LParen"
  | .closeParen => "RParen"
  | .openBracket => "LBracket"
  | .closeBracket => "RBracket"
  | .equal => "Eq"
  | .notEqual => "Ne"
  | .finish => "Eof"

end FieldPatch.Selector
