import FieldPatch.Shell.Arithmetic
import FieldPatch.Shell.Script

/-! Scripts read from text. The readers that need each other take a bound on the depth of their
calls; `read?` gives them one that no text reaches. -/

namespace FieldPatch.Shell

def isNameStart (c : Char) : Bool := c.isAlpha || c == '_'

def isNameChar (c : Char) : Bool := c.isAlphanum || c == '_'

/-- The characters that a word without quotes ends before. -/
def endsWord (c : Char) : Bool := " \t\n;&|<>()".contains c

/-- The word that is written without quotes at the start of a text. -/
def plainWord (cs : Text) : Text := cs.takeWhile fun c => !endsWord c

def skipBlanks : Text → Text
  | ' ' :: cs => skipBlanks cs
  | '\t' :: cs => skipBlanks cs
  | '\\' :: '\n' :: cs => skipBlanks cs
  | cs => cs

/-- Passes over blanks and a comment up to the end of the line. -/
def skipComment (cs : Text) : Text :=
  match skipBlanks cs with
  | '#' :: rest => rest.dropWhile (· ≠ '\n')
  | rest => rest

/-- Passes over empty lines. -/
def skipLines : Nat → Text → Text
  | 0, cs => cs
  | n + 1, cs =>
    match skipComment cs with
    | '\n' :: rest => skipLines n rest
    | rest => rest

/-- The parameter at the start of the text. -/
def parameter? : Text → Option (Parameter × Text)
  | '#' :: cs => some (.count, cs)
  | '?' :: cs => some (.status, cs)
  | '$' :: cs => some (.process, cs)
  | '@' :: cs => some (.arguments false, cs)
  | '*' :: cs => some (.arguments true, cs)
  | c :: cs =>
    if c.isDigit then some (.argument (c.toNat - '0'.toNat), cs)
    else if isNameStart c then
      let name := (c :: cs).takeWhile isNameChar
      some (.variable (String.ofList name), cs.drop (name.length - 1))
    else none
  | [] => none

/-- Like `parameter?`, between braces, where a number may have several digits. -/
def braced? (cs : Text) : Option (Parameter × Text) :=
  let digits := cs.takeWhile Char.isDigit
  if digits.isEmpty then parameter? cs
  else some (.argument ((String.ofList digits).toNat?.getD 0), cs.drop digits.length)

def closers : List String := ["then", "elif", "else", "fi", "do", "done", "\x7d"]

/-- Passes over a reserved word. -/
def reserved? (name : String) (cs : Text) : Option Text :=
  let rest := skipBlanks cs
  if plainWord rest = name.toList then some (rest.drop name.length) else none

/-- Whether a list of commands ends here. -/
def endsList (cs : Text) : Bool :=
  match skipBlanks cs with
  | [] => true
  | ')' :: _ => true
  | rest => closers.contains (String.ofList (plainWord rest))

/-- The name that is assigned to at the start of the text. -/
def assigned? (cs : Text) : Option (String × Text) :=
  let name := cs.takeWhile isNameChar
  match name, cs.drop name.length with
  | c :: _, '=' :: rest => if isNameStart c then some (String.ofList name, rest) else none
  | _, _ => none

/-- The operator of a redirection, perhaps with the number of its stream. -/
def redirection? : Text → Option (Char × Nat × Text)
  | '<' :: cs => some ('<', 0, cs)
  | '>' :: cs => some ('>', 1, cs)
  | c :: '>' :: cs => if c.isDigit then some ('>', c.toNat - '0'.toNat, cs) else none
  | _ => none

def stream : Nat → Stream
  | 1 => .output
  | 2 => .errors
  | _ => .nowhere

mutual

/-- What follows a dollar sign. -/
def readDollar (n : Nat) (quoted : Bool) (cs : Text) : Option (Word × Text) :=
  match n with
  | 0 => none
  | n + 1 =>
    match cs with
    | '(' :: '(' :: rest => do
      let (e, rest) ← Arithmetic.enclosed 0 rest
      return (.arithmetic e .done, rest)
    | '(' :: rest => do
      match ← readList n rest with
      | (c, ')' :: rest) => return (.output quoted c .done, rest)
      | _ => none
    | '\x7b' :: rest => do
      let (p, rest) ← braced? rest
      match rest with
      | '\x7d' :: rest => return (.value quoted p .done, rest)
      | ':' :: '-' :: rest =>
        let (w, rest) ← readFallback n quoted rest
        return (.valueOr quoted p true w .done, rest)
      | '-' :: rest =>
        let (w, rest) ← readFallback n quoted rest
        return (.valueOr quoted p false w .done, rest)
      | _ => none
    | _ =>
      match parameter? cs with
      | some (p, rest) => return (.value quoted p .done, rest)
      | none => return (.ofText ['$'], cs)

/-- The word between a sign and the brace that closes. -/
def readFallback (n : Nat) (quoted : Bool) (cs : Text) : Option (Word × Text) :=
  match n with
  | 0 => none
  | n + 1 =>
    match cs with
    | [] => none
    | '\x7d' :: rest => return (.done, rest)
    | cs => do
      let (w, rest) ← if quoted then readQuotedPiece n cs else readPiece n cs
      let (more, rest) ← readFallback n quoted rest
      return (w.append more, rest)

/-- A piece of a word between double quotes. -/
def readQuotedPiece (n : Nat) (cs : Text) : Option (Word × Text) :=
  match n with
  | 0 => none
  | n + 1 =>
    match cs with
    | [] => none
    | '\\' :: '\n' :: rest => return (.done, rest)
    | '\\' :: c :: rest =>
      let kept := if "$\"\\\x60".contains c then [c] else ['\\', c]
      return (.ofText kept, rest)
    | '$' :: rest => readDollar n true rest
    | c :: rest => return (.ofText [c], rest)

/-- What stands between double quotes, behind the first of them. -/
def readQuoted (n : Nat) (cs : Text) : Option (Word × Text) :=
  match n with
  | 0 => none
  | n + 1 =>
    match cs with
    | '"' :: rest => return (.done, rest)
    | cs => do
      let (w, rest) ← readQuotedPiece n cs
      let (more, rest) ← readQuoted n rest
      return (w.append more, rest)

/-- A piece of a word. -/
def readPiece (n : Nat) (cs : Text) : Option (Word × Text) :=
  match n with
  | 0 => none
  | n + 1 =>
    match cs with
    | [] => none
    | '\\' :: '\n' :: rest => return (.done, rest)
    | '\\' :: c :: rest => return (.ofText [c], rest)
    | '\'' :: rest =>
      match rest.dropWhile (· ≠ '\'') with
      | _ :: behind => return (.ofText (rest.takeWhile (· ≠ '\'')), behind)
      | [] => none
    | '"' :: '"' :: rest => return (.ofText [], rest)
    | '"' :: rest => readQuoted n rest
    | '$' :: rest => readDollar n false rest
    | c :: rest => return (.ofText [c], rest)

def readWord (n : Nat) (cs : Text) : Option (Word × Text) :=
  match n with
  | 0 => none
  | n + 1 =>
    match cs with
    | [] => return (.done, [])
    | c :: rest =>
      if endsWord c then return (.done, c :: rest)
      else do
        let (w, rest) ← readPiece n (c :: rest)
        let (more, rest) ← readWord n rest
        return (w.append more, rest)

/-- The redirection whose operator and stream were read. -/
def readTarget (n : Nat) (operator : Char) (source : Nat) (cs : Text) :
    Option ((Parts → Parts) × Text) :=
  match n with
  | 0 => none
  | n + 1 =>
    match cs with
    | '&' :: c :: rest => do
      guard c.isDigit
      return (.copyTo (stream source) (stream (c.toNat - '0'.toNat)), rest)
    | '>' :: rest => do
      let (w, rest) ← readWord n (skipBlanks rest)
      return (.writeTo (stream source) w, rest)
    | rest => do
      let (w, rest) ← readWord n (skipBlanks rest)
      return (if operator = '<' then .readFrom w else .writeTo (stream source) w, rest)

/-- The parts of a simple command; assignments stand in front of the first word only. -/
def readParts (n : Nat) (inFront : Bool) (cs : Text) : Option (Parts × Text) :=
  match n with
  | 0 => none
  | n + 1 =>
    match skipBlanks cs with
    | [] => return (.done, [])
    | c :: rest =>
      if let some (operator, source, rest) := redirection? (c :: rest) then do
        let (f, rest) ← readTarget n operator source rest
        let (more, rest) ← readParts n inFront rest
        return (f more, rest)
      else if endsWord c || c == '#' then return (.done, c :: rest)
      else if let some (name, rest) := (if inFront then assigned? (c :: rest) else none) then do
        let (w, rest) ← readWord n rest
        let (more, rest) ← readParts n true rest
        return (.assignment name w more, rest)
      else do
        let (w, rest) ← readWord n (c :: rest)
        let (more, rest) ← readParts n false rest
        return (.word w more, rest)

/-- The conditions and branches of a choice behind its first word. -/
def readChoice (n : Nat) (cs : Text) : Option (Command × Text) :=
  match n with
  | 0 => none
  | n + 1 => do
    let (condition, rest) ← readList n cs
    let (yes, rest) ← readList n (← reserved? "then" rest)
    match reserved? "elif" rest, reserved? "else" rest with
    | some rest, _ =>
      let (no, rest) ← readChoice n rest
      return (.choice condition yes no, rest)
    | none, some rest =>
      let (no, rest) ← readList n rest
      return (.choice condition yes no, ← reserved? "fi" rest)
    | none, none => return (.choice condition yes .nothing, ← reserved? "fi" rest)

/-- A loop behind its first word. -/
def readLoop (n : Nat) (cs : Text) : Option (Command × Text) :=
  match n with
  | 0 => none
  | n + 1 => do
    let name := plainWord (skipBlanks cs)
    let rest := (skipBlanks cs).drop name.length
    let (values, rest) ← match reserved? "in" rest with
      | some rest => readParts n false rest
      | none => some (.word (.value true (.arguments false) .done) .done, rest)
    let rest := skipLines n (match skipBlanks rest with | ';' :: rest => rest | rest => rest)
    let (body, rest) ← readList n (← reserved? "do" rest)
    return (.each (String.ofList name) values body, ← reserved? "done" rest)

/-- A condition and a body behind the word that says whether the condition has to hold. -/
def readRepeated (n : Nat) (holds : Bool) (cs : Text) : Option (Command × Text) :=
  match n with
  | 0 => none
  | n + 1 => do
    let (condition, rest) ← readList n cs
    let (body, rest) ← readList n (← reserved? "do" rest)
    return (.repeated holds condition body, ← reserved? "done" rest)

/-- Redirections behind a command that others are part of. -/
def readRedirected (n : Nat) (c : Command) (cs : Text) : Option (Command × Text) :=
  match n with
  | 0 => none
  | n + 1 => do
    match ← readParts n false cs with
    | (.done, rest) => return (c, rest)
    | (parts, rest) => return (.redirected c parts, rest)

def readCommand (n : Nat) (cs : Text) : Option (Command × Text) :=
  match n with
  | 0 => none
  | n + 1 => do
    if let '(' :: rest := skipBlanks cs then
      match ← readList n rest with
      | (c, ')' :: rest) => readRedirected n (.isolated c) rest
      | _ => none
    else if let some rest := reserved? "\x7b" cs then
      let (c, rest) ← readList n rest
      readRedirected n c (← reserved? "\x7d" rest)
    else if let some rest := reserved? "if" cs then
      let (c, rest) ← readChoice n rest
      readRedirected n c rest
    else if let some rest := reserved? "for" cs then
      let (c, rest) ← readLoop n rest
      readRedirected n c rest
    else if let some rest := reserved? "while" cs then
      let (c, rest) ← readRepeated n true rest
      readRedirected n c rest
    else if let some rest := reserved? "until" cs then
      let (c, rest) ← readRepeated n false rest
      readRedirected n c rest
    else
      let (parts, rest) ← readParts n true cs
      match parts with
      | .done => none
      | _ => return (.simple (cs.count '\n') parts, rest)

def readPipeline (n : Nat) (cs : Text) : Option (Command × Text) :=
  match n with
  | 0 => none
  | n + 1 => do
    if let some rest := reserved? "!" cs then
      let (c, rest) ← readPipeline n rest
      return (.negated c, rest)
    else
      let (c, rest) ← readCommand n cs
      match skipBlanks rest with
      | '|' :: '|' :: _ => return (c, rest)
      | '|' :: rest =>
        let (d, rest) ← readPipeline n (skipLines n rest)
        return (.pipe c d, rest)
      | _ => return (c, rest)

/-- Pipelines joined to the command that was read before them. -/
def readJoined (n : Nat) (c : Command) (cs : Text) : Option (Command × Text) :=
  match n with
  | 0 => none
  | n + 1 =>
    match skipBlanks cs with
    | '&' :: '&' :: rest => do
      let (d, rest) ← readPipeline n (skipLines n rest)
      readJoined n (.both c d) rest
    | '|' :: '|' :: rest => do
      let (d, rest) ← readPipeline n (skipLines n rest)
      readJoined n (.either c d) rest
    | rest => some (c, rest)

/-- Commands one after the other, up to the end or to something that closes. -/
def readList (n : Nat) (cs : Text) : Option (Command × Text) :=
  match n with
  | 0 => none
  | n + 1 => do
    let cs := skipLines n cs
    if endsList cs then return (.nothing, skipBlanks cs)
    let (c, rest) ← readPipeline n cs
    let (c, rest) ← readJoined n c rest
    match skipComment rest with
    | ';' :: rest =>
      let (more, rest) ← readList n rest
      return (.sequence c more, rest)
    | '\n' :: rest =>
      let (more, rest) ← readList n rest
      return (.sequence c more, rest)
    | rest => if endsList rest then return (c, rest) else none

end

/-- The script that a text holds. No more than ten readers call each other before one of them
takes a character. -/
def read? (cs : Text) : Option Command :=
  match readList (10 * (cs.length + 1)) cs with
  | some (c, []) => some c
  | _ => none

end FieldPatch.Shell
