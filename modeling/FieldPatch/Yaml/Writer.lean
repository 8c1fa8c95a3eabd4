import FieldPatch.Tree.Basic
import FieldPatch.Yaml.Layout

/-! Trees written as YAML in block style. Only empty collections are written in brackets. -/

namespace FieldPatch.Yaml

/-- Goes on at column `indent` of a new line; a text that ends with a line break is at one
already. -/
def onNewLine (text : String) (indent : Nat) (more : String) : String :=
  text ++ (if text.endsWith "\n" then "" else "\n") ++ pad indent ++ more

/-- Whether a key is short enough, and on one line, to stand before its colon as it is. -/
def isSimpleKey (key : String) : Bool := !key.toList.any isBreak && key.utf8ByteSize ≤ 128

/-- Whether the node fills lines of its own below its key. -/
def isBlock : Tree → Bool
  | .array (_ :: _) => true
  | .map (_ :: _) => true
  | _ => false

/-- The column where the value of an entry starts: a sequence goes no deeper than its key. -/
def valueColumn (indent : Nat) (key : String) : Tree → Nat
  | .array (_ :: _) => if isSimpleKey key then indent else indent + 2
  | _ => indent + 2

/-- A key and the text of its value `x`. -/
def blockEntry (indent : Nat) (key : String) (x : Tree) (text : String) : String :=
  let name := renderText (indent + 2) key
  if !isSimpleKey key then onNewLine ("? " ++ name) indent (": " ++ text)
  else if isBlock x then onNewLine (name ++ ":") (valueColumn indent key x) text
  else name ++ ": " ++ text

mutual

/-- A node that starts at column `indent`, with all its lines. -/
def block (indent : Nat) : Tree → String
  | .null => "null"
  | .bool b => if b then "true" else "false"
  | .number (.whole n) => toString n.value
  | .number (.float x _) => FloatLayout.yaml.render x
  | .text s => renderText indent s
  | .array [] => "[]"
  | .array (x :: xs) => blockItems indent ("- " ++ block (indent + 2) x) xs
  | .map [] => "\x7b\x7d"
  | .map ((k, x) :: es) =>
    blockEntries indent (blockEntry indent k x (block (valueColumn indent k x) x)) es

/-- The items behind those that are written. -/
def blockItems (indent : Nat) (written : String) : List Tree → String
  | [] => written
  | x :: xs => blockItems indent (onNewLine written indent ("- " ++ block (indent + 2) x)) xs

def blockEntries (indent : Nat) (written : String) : List (String × Tree) → String
  | [] => written
  | (k, x) :: es =>
    let entry := blockEntry indent k x (block (valueColumn indent k x) x)
    blockEntries indent (onNewLine written indent entry) es

end

/-- The tree as a document. -/
def render (t : Tree) : String :=
  let text := match t with
    | .text s => renderText 2 s
    | t => block 0 t
  if text.endsWith "\n" then text else text ++ "\n"

end FieldPatch.Yaml
