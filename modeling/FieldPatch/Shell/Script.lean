/-! Scripts: the part of the shell's language that is understood. -/

namespace FieldPatch.Shell

/-- Bytes, each one as the character of its number. -/
abbrev Text := List Char

/-- Where output may go. -/
inductive Stream where
  | output
  | errors
  | nowhere
  deriving DecidableEq

/-- What a dollar sign may stand before. -/
inductive Parameter where
  | variable (name : String)
  | argument (index : Nat)
  /-- All arguments, as one text or each by itself. -/
  | arguments (joined : Bool)
  | count
  | status
  | process

mutual

inductive Word where
  | done
  | text (s : Text) (rest : Word)
  | value (quoted : Bool) (p : Parameter) (rest : Word)
  /-- The value of a parameter, or another word if it is missing, perhaps also if it is empty. -/
  | valueOr (quoted : Bool) (p : Parameter) (orEmpty : Bool) (fallback rest : Word)
  /-- What a command prints. -/
  | output (quoted : Bool) (c : Command) (rest : Word)
  /-- The value of an expression. -/
  | arithmetic (expression : Text) (rest : Word)

/-- The parts of a simple command. -/
inductive Parts where
  | done
  | word (w : Word) (rest : Parts)
  | assignment (name : String) (w : Word) (rest : Parts)
  | readFrom (w : Word) (rest : Parts)
  | writeTo (s : Stream) (w : Word) (rest : Parts)
  | copyTo (s target : Stream) (rest : Parts)

inductive Command where
  | nothing
  /-- A call, and how many lines the script has behind it. -/
  | simple (linesBehind : Nat) (parts : Parts)
  | sequence (first second : Command)
  | both (first second : Command)
  | either (first second : Command)
  | negated (c : Command)
  | pipe (first second : Command)
  | choice (condition yes no : Command)
  | each (name : String) (values : Parts) (body : Command)
  /-- A body that is run as long as a condition holds, or as long as it does not. -/
  | repeated (holds : Bool) (condition body : Command)
  | isolated (c : Command)
  | redirected (c : Command) (parts : Parts)

end

def Word.ofText (s : Text) : Word := .text s .done

def Word.append : Word → Word → Word
  | .done, v => v
  | .text s r, v => .text s (r.append v)
  | .value q p r, v => .value q p (r.append v)
  | .valueOr q p e f r, v => .valueOr q p e f (r.append v)
  | .output q c r, v => .output q c (r.append v)
  | .arithmetic e r, v => .arithmetic e (r.append v)

end FieldPatch.Shell
