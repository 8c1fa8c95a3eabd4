import FieldPatch.Json.Text
import FieldPatch.Text.Utf8
import FieldPatch.Yaml.Cursor
import FieldPatch.Yaml.Token

/-! Anchors, tags and directives. -/

namespace FieldPatch.Yaml

/-- The name of an anchor or an alias, whose indicator stands at the cursor. -/
def anchorName (c : Cursor) : Option (String × Cursor) := do
  let (name, c) := (c.skip 1).span isNameChar
  guard (!name.isEmpty)
  guard (endsWord c.rest || c.rest.head?.any fun d => "?:,]\x7d%@\x60".contains d)
  return (String.ofList name, c)

/-- A tag handle: `!`, and perhaps a name and a second `!`. -/
def tagHandle (c : Cursor) : Option (List Char × Cursor) := do
  guard (c.rest.head? == some '!')
  let (name, c) := (c.skip 1).span isNameChar
  if c.rest.head? == some '!' then return ('!' :: name ++ ['!'], c.skip 1)
  else return ('!' :: name, c)

/-- The bytes of a run of tag characters, and how many characters it takes. Escapes stand for
single bytes; each run of them has to make up characters by its lead bytes, of which `owed`
bytes are still to come. -/
def tagBytes (verbatim : Bool) : Nat → List Char → Option (List UInt8 × Nat)
  | owed, '%' :: a :: b :: cs => do
    let n := (← Json.hexDigit? a) * 16 + (← Json.hexDigit? b)
    let owed' ←
      if owed != 0 then if n / 64 == 2 then some (owed - 1) else none
      else if n < 0x80 then some 0
      else if n / 32 == 6 then some 1
      else if n / 16 == 14 then some 2
      else if n / 8 == 30 then some 3
      else none
    let (bytes, taken) ← tagBytes verbatim owed' cs
    return (UInt8.ofNat n :: bytes, taken + 3)
  | owed, c :: cs =>
    if owed != 0 || c == '%' then none
    else if isTagChar c || (verbatim && ",[]".contains c) then do
      let (bytes, taken) ← tagBytes verbatim 0 cs
      return (Utf8.encode c.toString ++ bytes, taken + 1)
    else some ([], 0)
  | owed, [] => if owed != 0 then none else some ([], 0)

/-- A run of tag characters as text. One that is not UTF-8 names no tag. -/
def tagText (verbatim : Bool) (c : Cursor) : Option (String × Nat × Cursor) := do
  let (bytes, taken) ← tagBytes verbatim 0 c.rest
  return ((Utf8.decode bytes).toOption.getD "", taken, c.skip taken)

/-- The tag whose `!` stands at the cursor. -/
def tagToken (inFlow : Bool) (c : Cursor) : Option (Token × Cursor) := do
  let (token, c) ←
    if c.startsWith "!<" then do
      let (uri, taken, c) ← tagText true (c.skip 2)
      guard (taken != 0 && c.rest.head? == some '>')
      pure (Token.tag "" uri, c.skip 1)
    else do
      let (handle, after) ← tagHandle c
      if 2 ≤ handle.length && handle.getLast? == some '!' then do
        let (rest, taken, c) ← tagText false after
        guard (taken != 0)
        pure (Token.tag (String.ofList handle) rest, c)
      else do
        let (rest, _, c) ← tagText false (c.skip 1)
        pure (if rest.isEmpty then Token.tag "" "!" else Token.tag "!" rest, c)
  guard (endsWord c.rest || (inFlow && c.rest.head? == some ','))
  return (token, c)

/-- A part of a version number. -/
def versionPart (c : Cursor) : Option (Nat × Cursor) := do
  let (digits, c) := c.span Char.isDigit
  guard (!digits.isEmpty && digits.length ≤ 9)
  return (digits.foldl (fun n d => 10 * n + (d.toNat - '0'.toNat)) 0, c)

/-- The directive whose `%` stands at the cursor, up to the end of its line. -/
def directive (c : Cursor) : Option (Token × Cursor) := do
  let (name, c) := (c.skip 1).span isNameChar
  guard (endsWord c.rest)
  let c := c.skipWhile isWhite
  let (token, c) ←
    if name == "YAML".toList then do
      let (major, c) ← versionPart c
      guard (c.rest.head? == some '.')
      let (minor, c) ← versionPart (c.skip 1)
      pure (Token.version major minor, c)
    else if name == "TAG".toList then do
      let (handle, c) ← tagHandle c
      guard (handle == ['!'] || (2 ≤ handle.length && handle.getLast? == some '!'))
      guard (c.rest.head?.any isWhite)
      let (uri, taken, c) ← tagText true (c.skipWhile isWhite)
      guard (taken != 0 && endsWord c.rest)
      pure (Token.handle (String.ofList handle) uri, c)
    else none
  return (token, ← c.finishLine?)

end FieldPatch.Yaml
