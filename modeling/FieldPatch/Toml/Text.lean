import FieldPatch.Json.Text
import FieldPatch.Toml.Chars

/-! Strings and keys of TOML: between double quotes with escapes, between single quotes as they
are, and both over several lines between tripled quotes. -/

namespace FieldPatch.Toml

def escaped? : Char → Option Char
  | 'b' => some '\x08'
  | 't' => some '\t'
  | 'n' => some '\n'
  | 'f' => some '\x0c'
  | 'r' => some '\r'
  | '"' => some '"'
  | '\\' => some '\\'
  | _ => none

/-- The character with a number in hexadecimal digits. -/
def hexChar? (digits : List Char) : Option Char := do
  let n ← digits.foldlM (fun n c => do return n * 16 + (← Json.hexDigit? c)) 0
  if 0x10FFFF < n || (0xD800 ≤ n && n ≤ 0xDFFF) then none else some (Char.ofNat n)

/-- The character of an escape sequence, behind its backslash. -/
def escapeSequence? : List Char → Option (Char × List Char)
  | 'u' :: cs => do
    guard (4 ≤ cs.length)
    return (← hexChar? (cs.take 4), cs.drop 4)
  | 'U' :: cs => do
    guard (8 ≤ cs.length)
    return (← hexChar? (cs.take 8), cs.drop 8)
  | c :: cs => do return (← escaped? c, cs)
  | [] => none

abbrev TextReader := List Char → Option (List Char × List Char)

/-- Puts a character in front of the text that `more` reads. -/
def followedBy (c : Char) (more : Option (List Char × List Char)) : Option (List Char × List Char) :=
  more.map fun (text, rest) => (c :: text, rest)

/-- A string of one line behind its double quote. -/
def basicText? : Nat → TextReader
  | 0, _ => none
  | _ + 1, [] => none
  | _ + 1, '"' :: rest => some ([], rest)
  | fuel + 1, '\\' :: cs => do
    let (c, rest) ← escapeSequence? cs
    followedBy c (basicText? fuel rest)
  | fuel + 1, c :: rest => if isText c then followedBy c (basicText? fuel rest) else none

/-- A string of one line behind its single quote. -/
def literalText? : TextReader
  | [] => none
  | '\'' :: rest => some ([], rest)
  | c :: rest => if isText c then followedBy c (literalText? rest) else none

/-- What follows three or more quotes, of which up to two before the last three belong to the
text. -/
def closing? (quote : Char) (cs : List Char) : Option (List Char × List Char) :=
  let run := (cs.takeWhile (· == quote)).length
  if run < 3 then none
  else some (List.replicate (min run 5 - 3) quote, cs.drop (min run 5))

/-- What follows an escaped line break and the white space and breaks behind it. -/
def skipEscapedBreak? (cs : List Char) : Option (List Char) :=
  (stripBreak? (skipSpace cs)).map fun rest => rest.dropWhile fun c => isSpace c || c == '\n' || c == '\r'

/-- A string of several lines; those between double quotes have escapes. -/
def multilineText? (quote : Char) : Nat → TextReader
  | 0, _ => none
  | _ + 1, [] => none
  | fuel + 1, c :: rest =>
    match closing? quote (c :: rest) with
    | some done => some done
    | none =>
      match stripBreak? (c :: rest) with
      | some rest => followedBy '\n' (multilineText? quote fuel rest)
      | none =>
        if c == '\\' && quote == '"' then
          match skipEscapedBreak? rest with
          | some rest => multilineText? quote fuel rest
          | none => do
            let (e, rest) ← escapeSequence? rest
            followedBy e (multilineText? quote fuel rest)
        else if isText c then followedBy c (multilineText? quote fuel rest)
        else none

/-- A line break right behind the opening quotes does not count. -/
def dropFirstBreak (cs : List Char) : List Char := (stripBreak? cs).getD cs

/-- A string of any form. -/
def text? : TextReader
  | '"' :: '"' :: '"' :: cs => multilineText? '"' (cs.length + 1) (dropFirstBreak cs)
  | '\'' :: '\'' :: '\'' :: cs => multilineText? '\'' (cs.length + 1) (dropFirstBreak cs)
  | '"' :: cs => basicText? (cs.length + 1) cs
  | '\'' :: cs => literalText? cs
  | _ => none

def simpleKey? : TextReader
  | '"' :: cs => basicText? (cs.length + 1) cs
  | '\'' :: cs => literalText? cs
  | cs =>
    let name := cs.takeWhile isBareKeyChar
    if name.isEmpty then none else some (name, cs.dropWhile isBareKeyChar)

/-- A key: names with dots between them, and white space around those. -/
def keyPath? : Nat → List Char → Option (List String × List Char)
  | 0, _ => none
  | fuel + 1, cs => do
    let (name, rest) ← simpleKey? (skipSpace cs)
    match skipSpace rest with
    | '.' :: rest =>
      let (more, rest) ← keyPath? fuel rest
      return (String.ofList name :: more, rest)
    | rest => return ([String.ofList name], rest)

/-- The greatest number of names in a key. -/
def maxKeyLength : Nat := 79

/-- Characters that only an escape can stand for. -/
def needsEscape (c : Char) : Bool := !isText c && c != '\n'

/-- The length of the longest run of `quote`; `current` of them stand right before. -/
def longestRun (quote : Char) (current : Nat) : List Char → Nat
  | [] => current
  | c :: cs => if c == quote then longestRun quote (current + 1) cs else max current (longestRun quote 0 cs)

def hexEscape (n : Nat) : List Char :=
  let digits := (Nat.toDigits 16 n).map Char.toUpper
  '\\' :: 'u' :: List.replicate (4 - digits.length) '0' ++ digits

def escapeChar (c : Char) : List Char :=
  match c with
  | '\x08' => ['\\', 'b']
  | '\t' => ['\\', 't']
  | '\n' => ['\\', 'n']
  | '\x0c' => ['\\', 'f']
  | '\r' => ['\\', 'r']
  | '"' => ['\\', '"']
  | '\\' => ['\\', '\\']
  | c => if needsEscape c then hexEscape c.toNat else [c]

/-- Text between tripled double quotes: line breaks stay, and of quotes in a row each third one
is escaped. -/
def escapeLines : Nat → List Char → List Char
  | _, [] => []
  | quotes, c :: cs =>
    if c == '\n' then c :: escapeLines 0 cs
    else if c == '"' && quotes < 2 then c :: escapeLines (quotes + 1) cs
    else escapeChar c ++ escapeLines 0 cs

def basic (cs : List Char) : String := "\"" ++ String.ofList (cs.flatMap escapeChar) ++ "\""

/-- A string in the first form that shows the text as it is: double quotes, single quotes, the
two with tripled quotes. Failing these it is escaped. -/
def renderText (s : String) : String :=
  let cs := s.toList
  let escapes := cs.any needsEscape
  let breaks := cs.contains '\n'
  let backslash := cs.contains '\\'
  let doubles := longestRun '"' 0 cs
  let singles := longestRun '\'' 0 cs
  let first := if breaks then "\n" else ""
  let multiline := "\"\"\"" ++ first ++ String.ofList (escapeLines 0 cs) ++ "\"\"\""
  if !escapes && !backslash && doubles == 0 && !breaks then basic cs
  else if !escapes && singles == 0 && !breaks then "'" ++ s ++ "'"
  else if !escapes && !backslash && doubles ≤ 2 then multiline
  else if !escapes && singles ≤ 2 then "'''" ++ first ++ s ++ "'''"
  else if breaks then multiline
  else basic cs

def renderKey (s : String) : String :=
  let cs := s.toList
  if !cs.isEmpty && cs.all isBareKeyChar then s
  else if cs.all isText && !cs.contains '\\' && !cs.contains '"' then basic cs
  else if cs.all isText && !cs.contains '\'' then "'" ++ s ++ "'"
  else basic cs

end FieldPatch.Toml
