import FieldPatch.Yaml.Chars

/-! Places in a text, and the text from a place on. -/

namespace FieldPatch.Yaml

structure Place where
  index : Nat
  line : Nat
  column : Nat

/-- The place behind some characters. -/
def Place.after (p : Place) : List Char → Place
  | [] => p
  | '\r' :: '\n' :: cs => after ⟨p.index + 2, p.line + 1, 0⟩ cs
  | c :: cs =>
    if isBreak c then after ⟨p.index + 1, p.line + 1, 0⟩ cs
    else after ⟨p.index + 1, p.line, p.column + 1⟩ cs

structure Cursor where
  rest : List Char
  place : Place

namespace Cursor

def start (text : List Char) : Cursor := ⟨text, ⟨0, 0, 0⟩⟩

def column (c : Cursor) : Nat := c.place.column

def skip (c : Cursor) (n : Nat) : Cursor := ⟨c.rest.drop n, c.place.after (c.rest.take n)⟩

/-- The longest run of characters of one class, and the cursor behind it. -/
def span (c : Cursor) (p : Char → Bool) : List Char × Cursor :=
  let run := c.rest.takeWhile p
  (run, ⟨c.rest.dropWhile p, c.place.after run⟩)

def skipWhile (c : Cursor) (p : Char → Bool) : Cursor := (c.span p).2

def startsWith (c : Cursor) (text : String) : Bool := text.toList.isPrefixOf c.rest

/-- Whether a line starts here with the mark of a document boundary. -/
def atMark (c : Cursor) (mark : String) : Bool :=
  c.column == 0 && c.startsWith mark && endsWord (c.rest.drop mark.length)

def atBoundary (c : Cursor) : Bool := c.atMark "---" || c.atMark "..."

/-- The line break here and the cursor behind it. All breaks but the two separators are
read as line feeds. -/
def lineBreak? (c : Cursor) : Option (Char × Cursor) :=
  match c.rest with
  | '\r' :: '\n' :: _ => some ('\n', c.skip 2)
  | b :: _ =>
    if isBreak b then some (if b == '\u2028' || b == '\u2029' then b else '\n', c.skip 1) else none
  | [] => none

/-- The cursor behind a comment, if one starts here. -/
def skipComment (c : Cursor) : Cursor :=
  if c.rest.head? == some '#' then c.skipWhile (!isBreak ·) else c

/-- The cursor behind white space, a comment and the line break, if nothing else is left on
the line. -/
def finishLine? (c : Cursor) : Option Cursor :=
  let c := (c.skipWhile isWhite).skipComment
  match c.lineBreak? with
  | some (_, next) => some next
  | none => if c.rest.isEmpty then some c else none

end Cursor

/-- The breaks in a gap between words. -/
def breaksIn : List Char → List Char
  | [] => []
  | '\r' :: '\n' :: cs => '\n' :: breaksIn cs
  | c :: cs =>
    if c == '\u2028' || c == '\u2029' then c :: breaksIn cs
    else if isBreak c then '\n' :: breaksIn cs
    else breaksIn cs

/-- What breaks between words come to: a single line feed joins the words by a space, and
before further breaks the first line feed is dropped. -/
def foldBreaks : List Char → List Char
  | ['\n'] => [' ']
  | '\n' :: more => more
  | breaks => breaks

/-- What a gap between two words of a scalar comes to. White space without a break stands
for itself. -/
def foldGap (gap : List Char) : List Char :=
  match breaksIn gap with
  | [] => gap
  | breaks => foldBreaks breaks

end FieldPatch.Yaml
