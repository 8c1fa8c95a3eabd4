import FieldPatch.Yaml.Chars
import FieldPatch.Yaml.Scalar

/-! How text is written as a YAML scalar: plain where that reads back as the same text, in
quotes or as a block where it does not. -/

namespace FieldPatch.Yaml

inductive Style where
  | plain
  | single
  | double
  | literal
  deriving DecidableEq

/-- Characters that are written as they are. -/
def isPrintable (c : Char) : Bool :=
  let n := c.toNat
  n == 0x0A || (0x20 ≤ n && n ≤ 0x7E) || (0xA0 ≤ n && n != 0xFEFF && n != 0xFFFE && n != 0xFFFF)

/-- Whether two neighbouring characters are related by `p`. -/
def anyNeighbours (p : Char → Char → Bool) : List Char → Bool
  | a :: b :: cs => p a b || anyNeighbours p (b :: cs)
  | _ => false

def isEdge (c : Char) : Bool := c == ' ' || isBreak c

/-- Whether a break follows a space. -/
def hasSpaceBeforeBreak : List Char → Bool := anyNeighbours fun a b => a == ' ' && isBreak b

/-- Whether a space follows a break. -/
def hasSpaceAfterBreak : List Char → Bool := anyNeighbours fun a b => isBreak a && b == ' '

/-- Whether the text would be taken for something else by its first characters. -/
def startsLikeStructure : List Char → Bool
  | [] => false
  | c :: cs =>
    (['-', '-', '-'].isPrefixOf (c :: cs)) || (['.', '.', '.'].isPrefixOf (c :: cs)) ||
      (isIndicator c && (!(c == '-' || c == '?' || c == ':') || endsWord cs))

/-- Whether a colon ends a word or a comment seems to start within the text. -/
def hasStructure (cs : List Char) : Bool :=
  cs.getLast? == some ':' || anyNeighbours (fun a b => (a == ':' && isGap b) || (isGap a && b == '#')) cs

def fitsPlain (cs : List Char) : Bool :=
  cs.all isPrintable && !cs.any isBreak && !cs.head?.any isEdge && !cs.getLast?.any isEdge &&
    !startsLikeStructure cs && !hasStructure cs

def fitsSingle (cs : List Char) : Bool :=
  cs.all isPrintable && !hasSpaceBeforeBreak cs && !hasSpaceAfterBreak cs

def fitsLiteral (cs : List Char) : Bool :=
  cs.all isPrintable && !hasSpaceBeforeBreak cs && cs.getLast? != some ' '

/-- Whether a plain scalar of this text is text, and looks like nothing else. -/
def readsAsText (s : String) : Bool :=
  match resolvePlain s with
  | some (.text _) => !isZeroPadded s.toList
  | _ => false

/-- Text with line feeds is a block if it can be, other text is as plain as it can be. -/
def Style.of (s : String) : Style :=
  let cs := s.toList
  if cs.contains '\n' then (if fitsLiteral cs then .literal else .double)
  else if readsAsText s && fitsPlain cs then .plain
  else if fitsSingle cs then .single
  else .double

def pad (n : Nat) : String := String.ofList (List.replicate n ' ')

/-- Characters with the lines behind breaks indented; `fresh` means that a line begins. -/
def indentLines (indent : Nat) : Bool → List Char → List Char
  | _, [] => []
  | fresh, c :: cs =>
    if isBreak c then c :: indentLines indent true cs
    else (if fresh then List.replicate indent ' ' else []) ++ c :: indentLines indent false cs

def singleQuoted (indent : Nat) (cs : List Char) : String :=
  let text := indentLines indent false (cs.flatMap fun c => if c == '\'' then ['\'', '\''] else [c])
  let last := if cs.getLast?.any isBreak then pad indent else ""
  "'" ++ String.ofList text ++ last ++ "'"

def hexDigits (width n : Nat) : List Char :=
  let digits := (Nat.toDigits 16 n).map Char.toUpper
  List.replicate (width - digits.length) '0' ++ digits

def escapeLetter? (c : Char) : Option Char :=
  match c with
  | '\x00' => some '0'
  | '\x07' => some 'a'
  | '\x08' => some 'b'
  | '\t' => some 't'
  | '\n' => some 'n'
  | '\x0b' => some 'v'
  | '\x0c' => some 'f'
  | '\r' => some 'r'
  | '\x1b' => some 'e'
  | '"' => some '"'
  | '\\' => some '\\'
  | '\u0085' => some 'N'
  | '\u2028' => some 'L'
  | '\u2029' => some 'P'
  | _ => none

def escapeDouble (c : Char) : List Char :=
  match escapeLetter? c with
  | some e => ['\\', e]
  | none =>
    if isPrintable c then [c]
    else
      let n := c.toNat
      if n ≤ 0xFF then '\\' :: 'x' :: hexDigits 2 n
      else if n ≤ 0xFFFF then '\\' :: 'u' :: hexDigits 4 n
      else '\\' :: 'U' :: hexDigits 8 n

def doubleQuoted (cs : List Char) : String :=
  "\"" ++ String.ofList (cs.flatMap escapeDouble) ++ "\""

/-- What the header of a literal block says about the break at its end: none is there, one, or
more than that. -/
def chompingMark (cs : List Char) : String :=
  match cs.reverse with
  | [] => "-"
  | [c] => if isBreak c then "+" else "-"
  | c :: d :: _ => if isBreak c then (if isBreak d then "+" else "") else "-"

/-- A block. The indentation is stated when the first line does not show it. -/
def literalBlock (indent : Nat) (cs : List Char) : String :=
  "|" ++ (if cs.head?.any isEdge then "2" else "") ++ chompingMark cs ++ "\n" ++
    String.ofList (indentLines indent true cs)

/-- Text as a scalar whose further lines are indented by `indent`. -/
def renderText (indent : Nat) (s : String) : String :=
  match Style.of s with
  | .plain => s
  | .single => singleQuoted indent s.toList
  | .double => doubleQuoted s.toList
  | .literal => literalBlock indent s.toList

end FieldPatch.Yaml
