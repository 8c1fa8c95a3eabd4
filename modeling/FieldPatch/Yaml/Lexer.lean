import FieldPatch.Yaml.Block
import FieldPatch.Yaml.Plain
import FieldPatch.Yaml.Property
import FieldPatch.Yaml.Quoted

/-! YAML text cut into tokens. Indentation opens and closes block collections, and a token
becomes a key only when the colon behind it is found; the marks of the key and of its mapping
are then put in front of it. -/

namespace FieldPatch.Yaml

/-- A token that may turn out to be a key: where it starts, how many tokens stand before it,
and whether it can be nothing else. -/
structure Candidate where
  place : Place
  number : Nat
  required : Bool

/-- A candidate that is still on this line and not too far back. -/
def Candidate.isFresh (p : Place) (k : Candidate) : Bool :=
  p.line ≤ k.place.line && p.index ≤ k.place.index + 1024

structure Lexer where
  cursor : Cursor
  tokens : Array Token
  /-- The indentation of the innermost block collection, `-1` outside of all. -/
  indent : Int
  outerIndents : List Int
  /-- The candidate of the innermost flow collection, or of the block around all of them. -/
  candidate : Option Candidate
  /-- Those of the surroundings, one for each open flow collection. -/
  outerCandidates : List (Option Candidate)
  keyAllowed : Bool

namespace Lexer

def start (text : List Char) : Lexer :=
  { cursor := .start text, tokens := #[], indent := -1, outerIndents := [], candidate := none,
    outerCandidates := [], keyAllowed := true }

def inFlow (l : Lexer) : Bool := !l.outerCandidates.isEmpty

def push (l : Lexer) (t : Token) : Lexer := { l with tokens := l.tokens.push t }

/-- Adds a token of `n` characters. -/
def take (l : Lexer) (t : Token) (n : Nat) : Lexer :=
  { l.push t with cursor := l.cursor.skip n }

/-- Passes white space, comments and line breaks. Where a line may start a key, tabs do not
count as white space. -/
def skipBlanks : Nat → Lexer → Lexer
  | 0, l => l
  | fuel + 1, l =>
    let c := if l.cursor.column == 0 && l.cursor.rest.head? == some byteOrderMark
      then l.cursor.skip 1 else l.cursor
    let tabs := l.inFlow || !l.keyAllowed
    let c := (c.skipWhile fun d => d == ' ' || (tabs && d == '\t')).skipComment
    match c.lineBreak? with
    | some (_, next) => skipBlanks fuel { l with cursor := next, keyAllowed := l.keyAllowed || !l.inFlow }
    | none => { l with cursor := c }

/-- Gives up candidates that came too long ago. One that is required must not be given up. -/
def dropStale (l : Lexer) : Option Lexer := do
  let p := l.cursor.place
  let isLost (k : Option Candidate) : Bool := k.any fun k => k.required && !k.isFresh p
  guard (!isLost l.candidate && !l.outerCandidates.any isLost)
  let fresh (k : Option Candidate) : Option Candidate := k.filter (·.isFresh p)
  return { l with candidate := fresh l.candidate, outerCandidates := l.outerCandidates.map fresh }

/-- Gives up the current candidate. -/
def dropCandidate (l : Lexer) : Option Lexer :=
  if l.candidate.any (·.required) then none else some { l with candidate := none }

/-- Makes the token to come a candidate, where keys are allowed. -/
def markCandidate (l : Lexer) : Option Lexer :=
  if l.keyAllowed then do
    let p := l.cursor.place
    let required := !l.inFlow && l.indent == p.column
    return { ← l.dropCandidate with candidate := some ⟨p, l.tokens.size, required⟩ }
  else some l

/-- Closes the block collections that are indented beyond a column. -/
def closeTo (column : Int) : List Int → Lexer → Lexer
  | [], l => l
  | outer :: more, l =>
    if column < l.indent then
      closeTo column more { l.push .closeBlock with indent := outer, outerIndents := more }
    else l

def dedent (l : Lexer) (column : Int) : Lexer :=
  if l.inFlow then l else closeTo column l.outerIndents l

/-- Opens a block collection at a column beyond the current indentation, in front of the token
with the given number. -/
def indentTo (l : Lexer) (column : Nat) (number : Nat) (kind : Collection) : Lexer :=
  if !l.inFlow && l.indent < column then
    { l with
      tokens := l.tokens.insertIdxIfInBounds number (.openBlock kind)
      indent := column
      outerIndents := l.indent :: l.outerIndents }
  else l

/-- What an indicator of block structure needs in front of it: a place where a key may stand,
and a collection of its kind. -/
def openHere (l : Lexer) (kind : Collection) : Option Lexer :=
  if l.inFlow then some l
  else if l.keyAllowed then some (l.indentTo l.cursor.column l.tokens.size kind)
  else none

def readBoundary (l : Lexer) (t : Token) : Option Lexer := do
  let l ← (l.dedent (-1)).dropCandidate
  return { l.take t 3 with keyAllowed := false }

def readDirective (l : Lexer) : Option Lexer := do
  let l ← (l.dedent (-1)).dropCandidate
  let (t, c) ← directive l.cursor
  return { l.push t with cursor := c, keyAllowed := false }

def readOpening (l : Lexer) (kind : Collection) : Option Lexer := do
  let l ← l.markCandidate
  return { l.take (.openFlow kind) 1 with
    candidate := none, outerCandidates := l.candidate :: l.outerCandidates, keyAllowed := true }

def readClosing (l : Lexer) (kind : Collection) : Option Lexer := do
  let l ← l.dropCandidate
  let l := { l.take (.closeFlow kind) 1 with keyAllowed := false }
  match l.outerCandidates with
  | [] => return l
  | k :: more => return { l with candidate := k, outerCandidates := more }

def readComma (l : Lexer) : Option Lexer := do
  let l ← l.dropCandidate
  return { l.take .comma 1 with keyAllowed := true }

def readItem (l : Lexer) : Option Lexer := do
  let l ← (← l.openHere .sequence).dropCandidate
  return { l.take .item 1 with keyAllowed := true }

def readKey (l : Lexer) : Option Lexer := do
  let l ← (← l.openHere .mapping).dropCandidate
  return { l.take .key 1 with keyAllowed := !l.inFlow }

/-- A colon. It makes the candidate a key; without one it belongs to a key that was marked. -/
def readValue (l : Lexer) : Option Lexer :=
  match l.candidate with
  | some k =>
    let l := { l with
      tokens := l.tokens.insertIdxIfInBounds k.number .key, candidate := none, keyAllowed := false }
    some ((l.indentTo k.place.column k.number .mapping).take .value 1)
  | none => do
    let l ← l.openHere .mapping
    return { l.take .value 1 with keyAllowed := !l.inFlow }

/-- A token that may be a key or stand in front of one. -/
def readContent (l : Lexer) (read : Cursor → Option (Token × Cursor)) : Option Lexer := do
  let l ← l.markCandidate
  let (t, c) ← read l.cursor
  return { l.push t with cursor := c, keyAllowed := false }

def readName (l : Lexer) (token : String → Token) : Option Lexer :=
  l.readContent fun c => (anchorName c).map fun (name, c) => (token name, c)

def readQuoted (l : Lexer) (double : Bool) : Option Lexer :=
  l.readContent fun c => (quotedScalar double c).map fun (text, c) => (.scalar false text, c)

def readBlock (l : Lexer) (folded : Bool) : Option Lexer := do
  let l ← l.dropCandidate
  let (text, c) ← blockScalar folded l.indent l.cursor
  return { l.push (.scalar false text) with cursor := c, keyAllowed := true }

def readPlain (l : Lexer) : Option Lexer := do
  let l ← l.markCandidate
  let s ← plainScalar l.inFlow l.indent l.cursor
  return { l.push (.scalar true (String.ofList s.text)) with cursor := s.cursor, keyAllowed := s.brokenOff }

/-- The token that starts at the cursor. -/
def read (l : Lexer) : Option Lexer :=
  let c := l.cursor
  match c.rest with
  | [] => none
  | d :: rest =>
    if c.column == 0 && d == '%' then l.readDirective
    else if c.atMark "---" then l.readBoundary .documentStart
    else if c.atMark "..." then l.readBoundary .documentEnd
    else if d == '[' then l.readOpening .sequence
    else if d == '\x7b' then l.readOpening .mapping
    else if d == ']' then l.readClosing .sequence
    else if d == '\x7d' then l.readClosing .mapping
    else if d == ',' then l.readComma
    else if d == '-' && endsWord rest then l.readItem
    else if d == '?' && (l.inFlow || endsWord rest) then l.readKey
    else if d == ':' && (l.inFlow || endsWord rest) then l.readValue
    else if d == '*' then l.readName .alias
    else if d == '&' then l.readName .anchor
    else if d == '!' then l.readContent (tagToken l.inFlow)
    else if d == '|' && !l.inFlow then l.readBlock false
    else if d == '>' && !l.inFlow then l.readBlock true
    else if d == '\'' then l.readQuoted false
    else if d == '"' then l.readQuoted true
    else if startsPlain l.inFlow c.rest then l.readPlain
    else none

/-- Closes all that is open at the end of the text. -/
def finish (l : Lexer) : Option Lexer :=
  return (← (l.dedent (-1)).dropCandidate).push .streamEnd

/-- Reads tokens until the end of the text, or until one cannot be read. -/
def run : Nat → Lexer → Array Token
  | 0, l => l.tokens
  | fuel + 1, l =>
    match (skipBlanks (l.cursor.rest.length + 1) l).dropStale with
    | none => l.tokens
    | some fresh =>
      let next := fresh.dedent fresh.cursor.column
      if next.cursor.rest.isEmpty then (next.finish.map (·.tokens)).getD l.tokens
      else match next.read with
        | none => l.tokens
        | some l => run fuel l

end Lexer

/-- The tokens of a text. The last one is the end of the stream, unless something on the way
is no token. -/
def tokens (text : String) : List Token :=
  let cs := text.toList
  if cs.all isAllowed then (Lexer.run (cs.length + 1) (.start cs)).toList else []

end FieldPatch.Yaml
