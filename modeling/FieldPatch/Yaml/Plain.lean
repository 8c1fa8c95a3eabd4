import FieldPatch.Yaml.Cursor

/-! Scalars without quotes. They end where an indicator follows, at a comment, at a document
boundary and, outside flow collections, where a line is not indented enough. -/

namespace FieldPatch.Yaml

/-- Whether a plain scalar may start here. -/
def startsPlain (inFlow : Bool) : List Char → Bool
  | [] => false
  | c :: cs =>
    (!isGap c && !isIndicator c) || (c == '-' && !cs.head?.any isWhite) ||
      (!inFlow && (c == '?' || c == ':') && !endsWord cs)

/-- A word of a plain scalar. In flow collections a colon must not touch an indicator. -/
def plainWord (inFlow : Bool) : List Char → Option (List Char)
  | [] => some []
  | c :: cs =>
    if isGap c then some []
    else if inFlow && c == ':' && cs.head?.any (fun d => d == '?' || isFlowIndicator d) then none
    else if (c == ':' && endsWord cs) || (inFlow && isFlowIndicator c) then some []
    else do return c :: (← plainWord inFlow cs)

/-- Whether a tab stands in the indentation of a line within a gap. -/
def tabInIndent (indent : Int) : Bool → Nat → List Char → Bool
  | _, _, [] => false
  | below, column, c :: cs =>
    if isBreak c then tabInIndent indent true 0 cs
    else (below && c == '\t' && (column : Int) < indent) || tabInIndent indent below (column + 1) cs

structure PlainScalar where
  text : List Char
  /-- Whether a line break follows the last word. -/
  brokenOff : Bool
  cursor : Cursor

/-- A plain scalar from a place on where a word may start; `gap` is what stands between this
place and the text before. The gap counts only if a word follows. -/
def plainFrom (inFlow : Bool) (indent : Int) : Nat → List Char → Cursor → Option PlainScalar
  | 0, _, _ => none
  | fuel + 1, gap, c => do
    let ended : PlainScalar := ⟨[], gap.any isBreak, c⟩
    if c.atBoundary || c.rest.head? == some '#' then return ended
    else
      let word ← plainWord inFlow c.rest
      if word.isEmpty then return ended
      else
        let text := foldGap gap ++ word
        let (next, after) := (c.skip word.length).span isGap
        guard (!tabInIndent indent false 0 next)
        if next.isEmpty || (!inFlow && (after.column : Int) < indent) then
          return ⟨text, next.any isBreak, after⟩
        else
          let more ← plainFrom inFlow indent fuel next after
          return { more with text := text ++ more.text }

/-- The plain scalar at the cursor, inside a collection with the given indentation. -/
def plainScalar (inFlow : Bool) (indent : Int) (c : Cursor) : Option PlainScalar :=
  plainFrom inFlow (indent + 1) (c.rest.length + 1) [] c

end FieldPatch.Yaml
