import FieldPatch.Toml.Draft
import FieldPatch.Toml.Text

/-! TOML text read as values. Arrays and inline tables nest up to `maxDepth` deep. -/

namespace FieldPatch.Toml

abbrev ValueReader := List Char → Option (Value × List Char)

/-- Digits behind the first one; single underscores may stand between them. -/
def moreDigits (p : Char → Bool) : List Char → List Char × List Char
  | '_' :: c :: cs =>
    if p c then
      let (digits, rest) := moreDigits p cs
      (c :: digits, rest)
    else ([], '_' :: c :: cs)
  | c :: cs =>
    if p c then
      let (digits, rest) := moreDigits p cs
      (c :: digits, rest)
    else ([], c :: cs)
  | [] => ([], [])

def groupedDigits? (p : Char → Bool) (cs : List Char) : Option (List Char × List Char) :=
  if cs.head?.any p then some (moreDigits p cs) else none

/-- The digits of a decimal integer: a zero stands alone. -/
def decimalDigits? : List Char → Option (List Char × List Char)
  | '0' :: cs => some (['0'], cs)
  | cs => groupedDigits? Char.isDigit cs

/-- An integer in another base, behind its mark. -/
def basedInteger? (base : Nat) (cs : List Char) : Option (Value × List Char) := do
  let isDigit (c : Char) : Bool := (Json.hexDigit? c).any (· < base)
  let (digits, rest) ← groupedDigits? isDigit cs
  let n := digits.foldl (fun n c => n * base + (Json.hexDigit? c).getD 0) 0
  return (.integer (← Integer.ofInt? n), rest)

def integer? : ValueReader
  | '0' :: 'x' :: cs => basedInteger? 16 cs
  | '0' :: 'o' :: cs => basedInteger? 8 cs
  | '0' :: 'b' :: cs => basedInteger? 2 cs
  | cs => do
    let (negative, body) := splitSign cs
    let (digits, rest) ← decimalDigits? body
    let n : Int := Digits.value 0 digits
    return (.integer (← Integer.ofInt? (if negative then -n else n)), rest)

/-- The exponent of a number, if it has one. -/
def power? : List Char → Option (Int × List Char)
  | c :: cs =>
    if c == 'e' || c == 'E' then do
      let (negative, body) := splitSign cs
      let (digits, rest) ← groupedDigits? Char.isDigit body
      let n : Int := Digits.value 0 digits
      return (if negative then -n else n, rest)
    else none
  | [] => none

def decimalFloat? (cs : List Char) : Option (Binary64 × List Char) := do
  let (negative, body) := splitSign cs
  let (whole, rest) ← decimalDigits? body
  let (digits, scale, exponent, rest) ← match rest with
    | '.' :: rest => do
      let (behind, rest) ← groupedDigits? Char.isDigit rest
      let (n, rest) := (power? rest).getD (0, rest)
      pure (whole ++ behind, behind.length, n, rest)
    | rest => do
      let (n, rest) ← power? rest
      pure (whole, 0, n, rest)
  let x := Binary64.ofDecimal negative (Digits.value 0 digits) (exponent - scale)
  guard (x != .infinity false)
  return (x, rest)

def float? (cs : List Char) : Option (Value × List Char) :=
  match decimalFloat? cs with
  | some (x, rest) => some (.float x, rest)
  | none =>
    match splitSign cs with
    | (negative, 'i' :: 'n' :: 'f' :: rest) => some (.float (.infinity negative), rest)
    | (_, 'n' :: 'a' :: 'n' :: rest) => some (.float .nan, rest)
    | _ => none

def word? : ValueReader
  | 't' :: 'r' :: 'u' :: 'e' :: rest => some (.boolean true, rest)
  | 'f' :: 'a' :: 'l' :: 's' :: 'e' :: rest => some (.boolean false, rest)
  | _ => none

/-- A value that is no collection. -/
def scalar? (cs : List Char) : Option (Value × List Char) :=
  match text? cs with
  | some (s, rest) => some (.text (String.ofList s), rest)
  | none =>
    match moment? cs with
    | some (m, rest) => some (.moment m, rest)
    | none => float? cs <|> integer? cs <|> word? cs

/-- An entry: the names of its key before the last one, that one, and its value. -/
abbrev Pair := List String × String × Value

/-- A key, an equals sign and a value. -/
def pair? (value : ValueReader) (cs : List Char) :
    Option (Pair × List Char) := do
  let (path, rest) ← keyPath? (cs.length + 1) cs
  guard (path.length ≤ maxKeyLength)
  let name ← path.getLast?
  let (v, rest) ← value (skipSpace (← strip? '=' rest))
  return ((path.dropLast, name, v), rest)

/-- The items of an array up to its bracket, with line breaks and comments around them. -/
def items? (value : ValueReader) : Nat → List Char → Option (List Value × List Char)
  | 0, _ => none
  | fuel + 1, cs =>
    match skipLines (cs.length + 1) cs with
    | ']' :: rest => some ([], rest)
    | cs => do
      let (v, rest) ← value cs
      match skipLines (rest.length + 1) rest with
      | ']' :: rest => return ([v], rest)
      | ',' :: rest =>
        let (vs, rest) ← items? value fuel rest
        return (v :: vs, rest)
      | _ => none

/-- The entries of an inline table up to its brace, behind one entry at least. -/
def inlineEntries? (value : ValueReader) : Nat → Draft.Body → List Char → Option (Draft.Body × List Char)
  | 0, _, _ => none
  | fuel + 1, es, cs => do
    let ((path, name, v), rest) ← pair? value cs
    let es ← Draft.insert name (.value v) true path es
    match skipSpace rest with
    | '\x7d' :: rest => return (es, rest)
    | ',' :: rest => inlineEntries? value fuel es rest
    | _ => none

def inlineTable? (value : ValueReader) (cs : List Char) : Option (Value × List Char) :=
  match skipSpace cs with
  | '\x7d' :: rest => some (.table [], rest)
  | cs => (inlineEntries? value (cs.length + 1) [] cs).map fun (es, rest) =>
      (.table (Draft.toEntries es), rest)

/-- A value in which collections nest at most `depth` deep. -/
def value? : Nat → ValueReader
  | depth, cs =>
    match cs with
    | '[' :: rest =>
      match depth with
      | 0 => none
      | d + 1 => (items? (value? d) (rest.length + 1) rest).map fun (vs, rest) => (.array vs, rest)
    | '\x7b' :: rest =>
      match depth with
      | 0 => none
      | d + 1 => inlineTable? (value? d) rest
    | cs => scalar? cs

def maxDepth : Nat := 79

/-- Enters pairs one after the other. -/
def enterPairs : List Pair → Draft.Body → Option Draft.Body
  | [], es => some es
  | (path, name, v) :: more, es => do enterPairs more (← Draft.insert name (.value v) true path es)

/-- The pairs of a section, and what follows them: the next header or the end. -/
def pairs? : Nat → List Char → Option (List Pair × List Char)
  | 0, _ => none
  | fuel + 1, cs =>
    match skipLines (cs.length + 1) cs with
    | [] => some ([], [])
    | '[' :: rest => some ([], '[' :: rest)
    | cs => do
      let (pair, rest) ← pair? (value? maxDepth) cs
      let (more, rest) ← pairs? fuel (← finishLine? rest)
      return (pair :: more, rest)

/-- The path of a header, and whether it stands in double brackets. -/
def header? (cs : List Char) : Option ((List String × Bool) × List Char) := do
  let (repeated, cs) := match cs with
    | '[' :: '[' :: cs => (true, cs)
    | cs => (false, cs.drop 1)
  let (path, rest) ← keyPath? (cs.length + 1) cs
  guard (path.length ≤ maxKeyLength)
  let rest ← strip? ']' rest
  let rest ← if repeated then strip? ']' rest else some rest
  return ((path, repeated), ← finishLine? rest)

/-- The sections from a header on. -/
def sections? : Nat → Draft.Body → List Char → Option Draft.Body
  | 0, _, _ => none
  | _ + 1, root, [] => some root
  | fuel + 1, root, cs => do
    let ((path, repeated), rest) ← header? cs
    let name ← path.getLast?
    let (pairs, rest) ← pairs? (rest.length + 1) rest
    let add := if repeated then Draft.addRepeated name else Draft.addTable name
    sections? fuel (← Draft.update (add (enterPairs pairs)) path.dropLast root) rest

/-- The root table of a document. -/
def readValue? (text : String) : Option Value := do
  let cs := match text.toList with
    | '\ufeff' :: cs => cs
    | cs => cs
  let (pairs, rest) ← pairs? (cs.length + 1) cs
  let root ← enterPairs pairs []
  return .table (Draft.toEntries (← sections? (cs.length + 1) root rest))

/-- The tree of a document. -/
def read (text : String) : Except Error Tree :=
  match readValue? text with
  | some v => v.toTree
  | none => .error (.document .malformed)

end FieldPatch.Toml
