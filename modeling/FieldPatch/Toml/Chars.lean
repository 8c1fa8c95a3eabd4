/-! White space, comments and line ends of TOML text. -/

namespace FieldPatch.Toml

def isSpace (c : Char) : Bool := c == ' ' || c == '\t'

/-- Characters other than control characters; the tab is allowed, too. -/
def isText (c : Char) : Bool := c == '\t' || (' ' ≤ c && c != '\x7f')

def isBareKeyChar (c : Char) : Bool := c.isAlphanum || c == '-' || c == '_'

def skipSpace (cs : List Char) : List Char := cs.dropWhile isSpace

/-- What follows a line break, if one is here. -/
def stripBreak? : List Char → Option (List Char)
  | '\n' :: cs => some cs
  | '\r' :: '\n' :: cs => some cs
  | _ => none

def skipComment : List Char → List Char
  | '#' :: cs => cs.dropWhile isText
  | cs => cs

/-- What follows the line, if nothing but white space and a comment is left on it. -/
def finishLine? (cs : List Char) : Option (List Char) :=
  match skipComment (skipSpace cs) with
  | [] => some []
  | rest => stripBreak? rest

/-- Passes white space, comments and line breaks, at most `fuel` of them. -/
def skipLines : Nat → List Char → List Char
  | 0, cs => cs
  | fuel + 1, cs =>
    match skipSpace cs with
    | '#' :: rest => skipLines fuel (rest.dropWhile isText)
    | '\n' :: rest => skipLines fuel rest
    | '\r' :: '\n' :: rest => skipLines fuel rest
    | rest => rest

end FieldPatch.Toml
