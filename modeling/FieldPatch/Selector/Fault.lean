import FieldPatch.Selector.Token

/-! What can be wrong with the text of a selector. -/

namespace FieldPatch.Selector

inductive Fault where
  | loneEquals
  | loneBang
  | strayChar (c : Char)
  | integerRange (digits : String)
  | unknownEscape (c : Char)
  | unterminatedText
  | unexpected (found : Token)
  | expected (wanted found : Token)
  | fieldAfterDot
  | pathExpected (found : Token)
  | malformedBracket (found : Token)
  | literalExpected
  | unknownFunction (name : String)
  | oneComparison (name : String)
  deriving DecidableEq

def Fault.message : Fault → String
  | .loneEquals => "unexpected '=', did you mean '=='?"
  | .loneBang => "unexpected '!', did you mean '!='?"
  | .strayChar c => "unexpected character: '" ++ c.toString ++ "'"
  | .integerRange digits => "invalid integer: " ++ digits
  | .unknownEscape c => "invalid escape character: '\\" ++ c.toString ++ "'"
  | .unterminatedText => "unterminated string literal"
  | .unexpected found => "unexpected token: " ++ found.describe
  | .expected wanted found => "expected " ++ wanted.describe ++ ", got " ++ found.describe
  | .fieldAfterDot => "expected field name or '[' after '.'"
  | .pathExpected found => "expected a path, got " ++ found.describe
  | .malformedBracket found => "malformed bracket content: " ++ found.describe
  | .literalExpected => "expected a string or number after comparison"
  | .unknownFunction name => "unknown function: " ++ name
  | .oneComparison name => name ++ " expects exactly one comparison argument"

/-- A fault and the number of characters before it. -/
structure Problem where
  position : Nat
  fault : Fault
  deriving DecidableEq

end FieldPatch.Selector
