import FieldPatch.Yaml.Cursor

/-! Block scalars: lines as they are, or folded, under a header that says how they end. -/

namespace FieldPatch.Yaml

/-- What becomes of the line breaks at the end. -/
inductive Chomping where
  | strip
  | clip
  | keep

structure BlockHeader where
  chomping : Chomping
  /-- The indentation beyond that of the parent, if it is given. -/
  extra : Option Nat

def chomping? : Char → Option Chomping
  | '+' => some .keep
  | '-' => some .strip
  | _ => none

def extraIndent? (c : Char) : Option Nat :=
  if c.isDigit && c != '0' then some (c.toNat - '0'.toNat) else none

/-- The header behind its indicator, and how many characters it takes. Its two parts come in
either order. -/
def blockHeader : List Char → BlockHeader × Nat
  | [] => (⟨.clip, none⟩, 0)
  | a :: rest =>
    let second := rest.head?
    match chomping? a, extraIndent? a with
    | some chomping, _ =>
      match second.bind extraIndent? with
      | some n => (⟨chomping, some n⟩, 2)
      | none => (⟨chomping, none⟩, 1)
    | none, some n =>
      match second.bind chomping? with
      | some chomping => (⟨chomping, some n⟩, 2)
      | none => (⟨.clip, some n⟩, 1)
    | none, none => (⟨.clip, none⟩, 0)

/-- Line breaks with nothing but indentation before them. -/
structure BlankLines where
  breaks : List Char
  /-- The widest indentation seen. -/
  widest : Nat
  cursor : Cursor

/-- Passes blank lines, and the indentation of the line behind them, as far as it goes. A tab
must not take the place of indentation. -/
def blankLines (indent : Option Nat) : Nat → Cursor → Option BlankLines
  | 0, _ => none
  | fuel + 1, c => do
    let spaces := (c.rest.takeWhile (· == ' ')).length
    let c := c.skip (indent.elim spaces fun i => min spaces (i - c.column))
    guard (!(c.rest.head? == some '\t' && indent.all (c.column < ·)))
    match c.lineBreak? with
    | none => return ⟨[], c.column, c⟩
    | some (b, next) =>
      let more ← blankLines indent fuel next
      return { more with breaks := b :: more.breaks, widest := max c.column more.widest }

structure BlockLine where
  text : List Char
  /-- The break that ends the line; none at the end of the text. -/
  lineBreak : List Char
  /-- The breaks of the blank lines that follow. -/
  blanks : List Char

def BlockLine.isSpaced (l : BlockLine) : Bool := l.text.head?.any isWhite

/-- The lines of a block scalar, and the cursor behind them. -/
def blockLines (indent : Nat) : Nat → Cursor → Option (List BlockLine × Cursor)
  | 0, _ => none
  | fuel + 1, c =>
    if c.column != indent || c.rest.isEmpty then some ([], c)
    else do
      let (text, c) := c.span (!isBreak ·)
      let (lineBreak, c) := match c.lineBreak? with
        | some (b, next) => ([b], next)
        | none => ([], c)
      let blanks ← blankLines (some indent) (c.rest.length + 1) c
      let (more, c) ← blockLines indent fuel blanks.cursor
      return (⟨text, lineBreak, blanks.breaks⟩ :: more, c)

/-- What stands between two lines. Folding joins lines that start with no white space. -/
def joint (folded : Bool) (before after : BlockLine) : List Char :=
  if folded && before.lineBreak == ['\n'] && !before.isSpaced && !after.isSpaced then
    if before.blanks.isEmpty then [' '] else before.blanks
  else before.lineBreak ++ before.blanks

def Chomping.tail : Chomping → BlockLine → List Char
  | .strip, _ => []
  | .clip, last => last.lineBreak
  | .keep, last => last.lineBreak ++ last.blanks

/-- The text that follows the line `before`. -/
def joinLines (folded : Bool) (chomping : Chomping) (before : BlockLine) : List BlockLine → List Char
  | [] => chomping.tail before
  | l :: ls => joint folded before l ++ l.text ++ joinLines folded chomping l ls

/-- The indentation of a block scalar whose first line says it: that of the widest line up to
the first one with text, but more than that of the parent. -/
def detectedIndent (parent : Int) (widest : Nat) : Nat := max (max widest (parent + 1).toNat) 1

/-- The block scalar whose indicator stands at the cursor, inside a collection with the given
indentation. -/
def blockScalar (folded : Bool) (parent : Int) (c : Cursor) : Option (String × Cursor) := do
  let (header, n) := blockHeader (c.rest.drop 1)
  let c ← (c.skip (n + 1)).finishLine?
  let given := header.extra.map fun n => (max parent 0).toNat + n
  let blanks ← blankLines given (c.rest.length + 1) c
  let indent := given.getD (detectedIndent parent blanks.widest)
  let (lines, c) ← blockLines indent (c.rest.length + 1) blanks.cursor
  return (String.ofList (joinLines folded header.chomping ⟨[], [], blanks.breaks⟩ lines), c)

end FieldPatch.Yaml
