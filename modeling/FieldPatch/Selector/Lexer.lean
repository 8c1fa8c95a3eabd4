import FieldPatch.Number.Reading
import FieldPatch.Selector.Fault

/-! Selector text cut into tokens. A lexeme is read from its first character and what
follows; it reports how many of the following characters it takes. -/

namespace FieldPatch

/-- White space: the code points with the Unicode property of that name. -/
def isBlank (c : Char) : Bool :=
  let n := c.toNat
  (9 ≤ n && n ≤ 13) || n == 0x20 || n == 0x85 || n == 0xA0 || n == 0x1680 ||
    (0x2000 ≤ n && n ≤ 0x200A) || n == 0x2028 || n == 0x2029 || n == 0x202F || n == 0x205F ||
    n == 0x3000

namespace Selector

def isWordStart (c : Char) : Bool := c.isAlpha || c == '_'

def isWordChar (c : Char) : Bool := c.isAlphanum || c == '_' || c == '-'

/-- The inside of a quoted string up to the closing quote, and the number of characters
taken, that quote included. `start` is where the opening quote is, `position` where the
inside goes on. -/
def quotedText (quote : Char) (start : Nat) : Nat → List Char → Except Problem (List Char × Nat)
  | _, [] => .error ⟨start, .unterminatedText⟩
  | position, '\\' :: cs =>
    match cs with
    | [] => .error ⟨start, .unterminatedText⟩
    | c :: rest => do
      let plain ← match c with
        | 'n' => pure '\n'
        | 'r' => pure '\r'
        | 't' => pure '\t'
        | '\\' => pure '\\'
        | '"' => pure '"'
        | '\'' => pure '\''
        | _ => throw ⟨position + 1, .unknownEscape c⟩
      let (value, taken) ← quotedText quote start (position + 2) rest
      return (plain :: value, taken + 2)
  | position, c :: cs =>
    if c = quote then .ok ([], 1)
    else do
      let (value, taken) ← quotedText quote start (position + 1) cs
      return (c :: value, taken + 1)

/-- The number that starts with `first` and goes on with the digits at the head of `cs`. -/
def integerToken (position : Nat) (first : Char) (cs : List Char) : Except Problem (Token × Nat) :=
  let digits := cs.takeWhile Char.isDigit
  let lexeme := first :: digits
  match readSigned64? lexeme with
  | some n => .ok (.integer n, digits.length)
  | none => .error ⟨position, .integerRange (String.ofList lexeme)⟩

def startsWithDigit (cs : List Char) : Bool := cs.head?.any Char.isDigit

/-- The token whose first character `c` stands at `position`, and how many of the characters
behind it belong to it. -/
def lexeme (position : Nat) (c : Char) (cs : List Char) : Except Problem (Token × Nat) :=
  if c = '.' then .ok (.dot, 0)
  else if c = '|' then .ok (.pipe, 0)
  else if c = ',' then .ok (.comma, 0)
  else if c = ':' then .ok (.colon, 0)
  else if c = '(' then .ok (.openParen, 0)
  else if c = ')' then .ok (.closeParen, 0)
  else if c = '[' then .ok (.openBracket, 0)
  else if c = ']' then .ok (.closeBracket, 0)
  else if c = '=' then
    if cs.head? = some '=' then .ok (.equal, 1) else .error ⟨position, .loneEquals⟩
  else if c = '!' then
    if cs.head? = some '=' then .ok (.notEqual, 1) else .error ⟨position, .loneBang⟩
  else if c = '"' ∨ c = '\'' then do
    let (value, taken) ← quotedText c position (position + 1) cs
    return (.text (String.ofList value) (c == '\''), taken)
  else if c = '-' ∧ startsWithDigit cs then integerToken position c cs
  else if c.isDigit then integerToken position c cs
  else if isWordStart c then
    let more := cs.takeWhile isWordChar
    .ok (.word (String.ofList (c :: more)), more.length)
  else .error ⟨position, .strayChar c⟩

/-- The tokens of the text, the first character of which stands at `position`. -/
def tokensFrom (position : Nat) : List Char → Except Problem (List Placed)
  | [] => .ok [⟨position, .finish⟩]
  | c :: cs =>
    if isBlank c then tokensFrom (position + 1) cs
    else do
      let (token, taken) ← lexeme position c cs
      let rest ← tokensFrom (position + 1 + taken) (cs.drop taken)
      return ⟨position, token⟩ :: rest
termination_by cs => cs.length
decreasing_by
  · simp
  · simp only [List.length_drop, List.length_cons]; omega

def tokens (selector : String) : Except Problem (List Placed) :=
  tokensFrom 0 selector.toList

end Selector

end FieldPatch
