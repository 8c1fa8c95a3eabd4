import FieldPatch.Json.Text
import FieldPatch.Yaml.Cursor

/-! Scalars in quotes: words with their escapes, and the gaps between them folded. -/

namespace FieldPatch.Yaml

/-- A word between single quotes, and how many characters it takes. A doubled quote is a
quote. -/
def singleWord : List Char → List Char × Nat
  | '\'' :: '\'' :: cs =>
    let (word, n) := singleWord cs
    ('\'' :: word, n + 2)
  | c :: cs =>
    if c == '\'' || isGap c then ([], 0)
    else
      let (word, n) := singleWord cs
      (c :: word, n + 1)
  | [] => ([], 0)

def escaped? : Char → Option Char
  | '0' => some '\x00'
  | 'a' => some '\x07'
  | 'b' => some '\x08'
  | 't' => some '\t'
  | '\t' => some '\t'
  | 'n' => some '\n'
  | 'v' => some '\x0b'
  | 'f' => some '\x0c'
  | 'r' => some '\r'
  | 'e' => some '\x1b'
  | ' ' => some ' '
  | '"' => some '"'
  | '/' => some '/'
  | '\\' => some '\\'
  | 'N' => some '\u0085'
  | '_' => some '\u00a0'
  | 'L' => some '\u2028'
  | 'P' => some '\u2029'
  | _ => none

/-- The character with a number in hexadecimal digits. -/
def hexChar? (digits : List Char) : Option Char := do
  let n ← digits.foldlM (fun n c => do return n * 16 + (← Json.hexDigit? c)) 0
  if 0x10FFFF < n || (0xD800 ≤ n && n ≤ 0xDFFF) then none else some (Char.ofNat n)

/-- A word between double quotes, and how many characters it takes. It ends before an escaped
line break, too. -/
def doubleWord : List Char → Option (List Char × Nat)
  | '\\' :: 'x' :: a :: b :: cs => do
    let x ← hexChar? [a, b]
    let (word, n) ← doubleWord cs
    return (x :: word, n + 4)
  | '\\' :: 'u' :: a :: b :: c :: d :: cs => do
    let x ← hexChar? [a, b, c, d]
    let (word, n) ← doubleWord cs
    return (x :: word, n + 6)
  | '\\' :: 'U' :: a :: b :: c :: d :: e :: f :: g :: h :: cs => do
    let x ← hexChar? [a, b, c, d, e, f, g, h]
    let (word, n) ← doubleWord cs
    return (x :: word, n + 10)
  | '\\' :: e :: cs =>
    if isBreak e then some ([], 0)
    else do
      let x ← escaped? e
      let (word, n) ← doubleWord cs
      return (x :: word, n + 2)
  | c :: cs =>
    if c == '"' || isGap c then some ([], 0)
    else if c == '\\' then none
    else do
      let (word, n) ← doubleWord cs
      return (c :: word, n + 1)
  | [] => some ([], 0)

/-- The scalar up to the closing quote, and the cursor behind that. Each round takes a word
and a gap. -/
def quotedFrom (double : Bool) : Nat → Cursor → Option (List Char × Cursor)
  | 0, _ => none
  | fuel + 1, c => do
    guard (!c.atBoundary)
    let (word, n) ← if double then doubleWord c.rest else some (singleWord c.rest)
    let c := c.skip n
    match c.rest with
    | [] => none
    | '\\' :: _ =>
      let (gap, c) := (c.skip 1).span isGap
      let (more, c) ← quotedFrom double fuel c
      return (word ++ (breaksIn gap).drop 1 ++ more, c)
    | q :: _ =>
      if isGap q then
        let (gap, c) := c.span isGap
        let (more, c) ← quotedFrom double fuel c
        return (word ++ foldGap gap ++ more, c)
      else return (word, c.skip 1)

/-- The scalar whose opening quote stands at the cursor. -/
def quotedScalar (double : Bool) (c : Cursor) : Option (String × Cursor) := do
  let (text, c) ← quotedFrom double (c.rest.length + 1) (c.skip 1)
  return (String.ofList text, c)

end FieldPatch.Yaml
