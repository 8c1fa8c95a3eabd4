import FieldPatch.Json.Number
import FieldPatch.Json.Text
import FieldPatch.Tree.Basic

/-! JSON text read as a tree. Containers nest less deep than `maxDepth`. -/

namespace FieldPatch.Json

abbrev Reader := List Char → Option (Tree × List Char)

def isSpace (c : Char) : Bool := c == ' ' || c == '\n' || c == '\t' || c == '\r'

def skipSpace (cs : List Char) : List Char := cs.dropWhile isSpace

/-- What follows `word`, if the text starts with it. -/
def stripWord? : List Char → List Char → Option (List Char)
  | [], cs => some cs
  | w :: ws, c :: cs => if w = c then stripWord? ws cs else none
  | _ :: _, [] => none

/-- Items behind one that has been read: each behind a comma, up to the bracket. -/
def moreItems (item : Reader) : Nat → List Char → Option (List Tree × List Char)
  | 0, _ => none
  | fuel + 1, cs =>
    match skipSpace cs with
    | ']' :: rest => some ([], rest)
    | ',' :: rest => do
      let (x, rest) ← item rest
      let (xs, rest) ← moreItems item fuel rest
      return (x :: xs, rest)
    | _ => none

def items (item : Reader) (cs : List Char) : Option (List Tree × List Char) :=
  match skipSpace cs with
  | ']' :: rest => some ([], rest)
  | rest => do
    let (x, rest) ← item rest
    let (xs, rest) ← moreItems item rest.length rest
    return (x :: xs, rest)

/-- A key, a colon and a value. -/
def member (item : Reader) (cs : List Char) : Option ((String × Tree) × List Char) :=
  match skipSpace cs with
  | '"' :: rest => do
    let (key, rest) ← readText? rest
    match skipSpace rest with
    | ':' :: rest => do
      let (x, rest) ← item rest
      return ((String.ofList key, x), rest)
    | _ => none
  | _ => none

def moreMembers (item : Reader) : Nat → List Char → Option (List (String × Tree) × List Char)
  | 0, _ => none
  | fuel + 1, cs =>
    match skipSpace cs with
    | '}' :: rest => some ([], rest)
    | ',' :: rest => do
      let (m, rest) ← member item rest
      let (ms, rest) ← moreMembers item fuel rest
      return (m :: ms, rest)
    | _ => none

def members (item : Reader) (cs : List Char) : Option (List (String × Tree) × List Char) :=
  match skipSpace cs with
  | '}' :: rest => some ([], rest)
  | rest => do
    let (m, rest) ← member item rest
    let (ms, rest) ← moreMembers item rest.length rest
    return (m :: ms, rest)

/-- A value in which containers may nest `depth` deep. -/
def value : Nat → Reader
  | depth, cs =>
    match skipSpace cs with
    | 'n' :: rest => do return (.null, ← stripWord? ['u', 'l', 'l'] rest)
    | 't' :: rest => do return (.bool true, ← stripWord? ['r', 'u', 'e'] rest)
    | 'f' :: rest => do return (.bool false, ← stripWord? ['a', 'l', 's', 'e'] rest)
    | '"' :: rest => do
      let (s, rest) ← readText? rest
      return (.text (String.ofList s), rest)
    | '[' :: rest =>
      match depth with
      | 0 => none
      | d + 1 => do
        let (xs, rest) ← items (value d) rest
        return (.array xs, rest)
    | '{' :: rest =>
      match depth with
      | 0 => none
      | d + 1 => do
        let (ms, rest) ← members (value d) rest
        return (.map (Entries.ofPairs ms), rest)
    | rest => do
      let (n, rest) ← readNumber? rest
      return (.number n, rest)

def maxDepth : Nat := 127

/-- The tree of a JSON document. A repeated key keeps its first place and its last value. -/
def read? (text : String) : Option Tree :=
  match value maxDepth text.toList with
  | some (t, rest) => if (skipSpace rest).isEmpty then some t else none
  | none => none

end FieldPatch.Json
