import FieldPatch.Tree.Entries
import FieldPatch.Yaml.Lexer
import FieldPatch.Yaml.Node

/-! The documents of a stream of tokens. -/

namespace FieldPatch.Yaml

structure Feed where
  tokens : List Token
  /-- The anchor names of the document so far, with the numbers they stand for. -/
  anchors : Entries Nat

/-- Takes tokens from a feed; fails where they do not fit. -/
abbrev Reader := StateT Feed Option

namespace Reader

def peek : Reader Token := do
  match (← get).tokens with
  | t :: _ => return t
  | [] => failure

def advance : Reader Unit := modify fun f => { f with tokens := f.tokens.tail }

def next : Reader Token := do
  let t ← peek
  advance
  return t

/-- Takes the next token if it is `t`. -/
def accept (t : Token) : Reader Bool := do
  if (← peek) = t then
    advance
    return true
  else return false

def expect (t : Token) : Reader Unit := do
  guard (← accept t)

/-- How many tokens are left, a bound on all that can still be read. -/
def left : Reader Nat := do return (← get).tokens.length

/-- Gives an anchor name a number: that of names known before. A name known already gets a
new number, too. -/
def define (name : String) : Reader Nat := do
  let n := (← get).anchors.length
  modify fun f => { f with anchors := Entries.put name n f.anchors }
  return n

/-- An item, or nothing where `absent` says that there is none. -/
def optionally (absent : Token → Bool) (item : Reader Node) : Reader Node := do
  if absent (← peek) then return .empty else item

/-- The tags that the handles of a document stand for. -/
abbrev Handles := List (String × String)

def defaultHandles : Handles := [("!", "!"), ("!!", "tag:yaml.org,2002:")]

def resolveTag (handles : Handles) (handle rest : String) : Option String :=
  if handle.isEmpty then some rest else (handles.lookup handle).map (· ++ rest)

def takeAnchor : Reader (Option String) := do
  match ← peek with
  | .anchor name =>
    advance
    return some name
  | _ => return none

def takeTag (handles : Handles) : Reader (Option String) := do
  match ← peek with
  | .tag handle rest =>
    advance
    return some (← (resolveTag handles handle rest : Option String))
  | _ => return none

/-- The anchor and the tag of a node, in either order. -/
def properties (handles : Handles) : Reader (Option String × Option String) := do
  match ← takeAnchor with
  | some name => return (some name, ← takeTag handles)
  | none =>
    let tag ← takeTag handles
    return (← if tag.isSome then takeAnchor else pure none, tag)

/-- The items of a block sequence, up to its end. -/
def blockItems (item : Reader Node) : Nat → Reader (List Node)
  | 0 => failure
  | fuel + 1 => do
    if ← accept .closeBlock then return []
    else
      expect .item
      let x ← optionally (fun t => t = .item || t = .closeBlock) item
      return x :: (← blockItems item fuel)

/-- Whether the key or the value of a block mapping is left out before this token. -/
def endsEntry (t : Token) : Bool := t = .key || t = .value || t = .closeBlock

/-- The items of a sequence that is the value of a mapping and not indented any deeper. -/
def flatItems (item : Reader Node) : Nat → Reader (List Node)
  | 0 => failure
  | fuel + 1 => do
    if ← accept .item then
      let x ← optionally (fun t => t = .item || endsEntry t) item
      return x :: (← flatItems item fuel)
    else return []

/-- The entries of a block mapping, up to its end. -/
def blockEntries (item : Reader Node) : Nat → Reader (List (Node × Node))
  | 0 => failure
  | fuel + 1 => do
    if ← accept .closeBlock then return []
    else
      expect .key
      let k ← optionally endsEntry item
      let v ← if ← accept .value then optionally endsEntry item else pure .empty
      return (k, v) :: (← blockEntries item fuel)

/-- Whether a part of a flow collection is left out before this token. -/
def endsPart (kind : Collection) (t : Token) : Bool := t = .comma || t = .closeFlow kind

/-- The value behind a key in a flow collection. -/
def flowValue (kind : Collection) (item : Reader Node) : Reader Node := do
  if ← accept .value then optionally (endsPart kind) item else return .empty

/-- The mapping of one entry that a key in a flow sequence makes. Where the key is left out, so
is the token behind it. -/
def flowPair (item : Reader Node) : Reader Node := do
  let t ← peek
  let k ← if t = .value || endsPart .sequence t then advance *> pure .empty else item
  return .mapping none [(k, ← flowValue .sequence item)]

/-- Passes the comma that stands before every part of a flow collection but the first. -/
def separate (first : Bool) (kind : Collection) : Reader Unit := do
  if !first && (← peek) ≠ .closeFlow kind then expect .comma

def flowItems (item : Reader Node) : Nat → Bool → Reader (List Node)
  | 0, _ => failure
  | fuel + 1, first => do
    separate first .sequence
    if ← accept (.closeFlow .sequence) then return []
    else
      let x ← if ← accept .key then flowPair item else item
      return x :: (← flowItems item fuel false)

def flowEntries (item : Reader Node) : Nat → Bool → Reader (List (Node × Node))
  | 0, _ => failure
  | fuel + 1, first => do
    separate first .mapping
    if ← accept (.closeFlow .mapping) then return []
    else if ← accept .key then
      let k ← optionally (fun t => t = .value || endsPart .mapping t) item
      let v ← flowValue .mapping item
      return (k, v) :: (← flowEntries item fuel false)
    else
      let k ← item
      return (k, .empty) :: (← flowEntries item fuel false)

/-- Where a node may stand: within a flow collection, in a block collection, or as the key or
value of a block mapping, where a sequence needs no further indentation. -/
inductive Position where
  | flow
  | block
  | entry
  deriving DecidableEq

/-- A node behind its anchor and tag; `none` where nothing but those is written. `inside` reads
the nodes within. -/
def content (inside : Position → Reader Node) (tag : Option String) (position : Position) :
    Reader (Option Node) := do
  match ← peek with
  | .item =>
    if position = .entry then return some (.sequence tag (← flatItems (inside .block) (← left)))
    else return none
  | .scalar plain text =>
    advance
    return some (.scalar (tag.filter (· != "!")) plain text)
  | .openFlow .sequence =>
    advance
    return some (.sequence tag (← flowItems (inside .flow) (← left) true))
  | .openFlow .mapping =>
    advance
    return some (.mapping tag (← flowEntries (inside .flow) (← left) true))
  | .openBlock .sequence =>
    if position = .flow then return none
    else
      advance
      return some (.sequence tag (← blockItems (inside .block) (← left)))
  | .openBlock .mapping =>
    if position = .flow then return none
    else
      advance
      return some (.mapping tag (← blockEntries (inside .entry) (← left)))
  | _ => return none

/-- A node in which others may nest `depth` deep. -/
def node (handles : Handles) : Nat → Position → Reader Node
  | 0, _ => failure
  | depth + 1, position => do
    match ← peek with
    | .alias name =>
      advance
      match Entries.get? name (← get).anchors with
      | some n => return .alias n
      | none => failure
    | _ =>
      let (anchor, tag) ← properties handles
      let anchored ← match anchor with
        | some name => do pure (Node.anchored (← define name))
        | none => pure id
      match ← content (node handles depth) tag position with
      | some n => return anchored n
      | none =>
        guard (anchor.isSome || tag.isSome)
        return anchored (.scalar tag true "")

/-- The directives in front of a document: a version, known and given once, and handles, each
declared once. -/
def directives : Nat → Bool → Handles → Reader Handles
  | 0, _, _ => failure
  | fuel + 1, versioned, handles => do
    match ← peek with
    | .version major minor =>
      guard (!versioned && major == 1 && (minor == 1 || minor == 2))
      advance
      directives fuel true handles
    | .handle name uri =>
      guard (handles.lookup name).isNone
      advance
      directives fuel versioned (handles ++ [(name, uri)])
    | _ => return handles

/-- Whether a document has no content before this token. -/
def endsDocument : Token → Bool
  | .streamEnd | .documentStart | .documentEnd | .version .. | .handle .. => true
  | _ => false

/-- The end of a document. -/
def finishDocument (root : Node) : Reader Document := do
  let _ ← accept .documentEnd
  return ⟨some root⟩

/-- A document behind its directives and its `---`. -/
def markedDocument : Reader Document := do
  let handles ← directives (← left) false []
  expect .documentStart
  finishDocument (← optionally endsDocument (node (handles ++ defaultHandles) (← left) .block))

/-- The first document of a stream may do without `---`. -/
def firstDocument : Reader Document := do
  match ← peek with
  | .version .. | .handle .. | .documentStart => markedDocument
  | _ => finishDocument (← node defaultHandles (← left) .block)

end Reader

/-- The documents from some tokens on, the last of them `none` if it is malformed. -/
def laterDocuments : Nat → List Token → List (Option Document)
  | 0, _ => []
  | fuel + 1, tokens =>
    match tokens.dropWhile (· = .documentEnd) with
    | .streamEnd :: _ => []
    | rest =>
      match Reader.markedDocument ⟨rest, []⟩ with
      | none => [none]
      | some (d, feed) => some d :: laterDocuments fuel feed.tokens

/-- The documents of a text. An empty stream is one empty document. -/
def documents (text : String) : List (Option Document) :=
  match tokens text with
  | .streamEnd :: _ => [some ⟨none⟩]
  | all =>
    match Reader.firstDocument ⟨all, []⟩ with
    | none => [none]
    | some (d, feed) => some d :: laterDocuments all.length feed.tokens

end FieldPatch.Yaml
