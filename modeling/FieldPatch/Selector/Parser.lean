import FieldPatch.Error
import FieldPatch.Selector.Expression
import FieldPatch.Selector.Lexer

/-! Tokens read as an expression:

    expression := (empty) | step ("|" step)*
    step       := path | word "(" [argument ("," argument)*] ")"
    argument   := literal | path [("==" | "!=") literal]
    path       := "." | (["."] bracket | "." word)+
    bracket    := "[" ("" | text | integer | [integer] ":" [integer]) "]"

The only function is `select`, with one comparison. -/

namespace FieldPatch.Selector

/-- The first of the remaining tokens, the end of the text when there is none. -/
def current (ts : List Placed) : Token :=
  match ts with
  | [] => .finish
  | t :: _ => t.token

def fail {α : Type} (ts : List Placed) (fault : Fault) : Except Problem α :=
  .error ⟨(ts.head?.map Placed.position).getD 0, fault⟩

def expect (wanted : Token) (ts : List Placed) : Except Problem (List Placed) :=
  match ts with
  | t :: rest => if t.token = wanted then .ok rest else fail ts (.expected wanted t.token)
  | [] => fail ts (.expected wanted .finish)

def optionalInteger : List Placed → Option Int × List Placed
  | ⟨_, .integer n⟩ :: rest => (some n, rest)
  | ts => (none, ts)

/-- A bracket behind its `[`. -/
def bracket (ts : List Placed) : Except Problem (Component × List Placed) :=
  match ts with
  | ⟨_, .closeBracket⟩ :: rest => .ok (.each, rest)
  | ⟨_, .text name _⟩ :: rest => return (.key name, ← expect .closeBracket rest)
  | ⟨_, .colon⟩ :: rest =>
    return (.slice none (optionalInteger rest).1, ← expect .closeBracket (optionalInteger rest).2)
  | ⟨_, .integer n⟩ :: ⟨_, .colon⟩ :: rest =>
    return (.slice (some n) (optionalInteger rest).1, ← expect .closeBracket (optionalInteger rest).2)
  | ⟨_, .integer n⟩ :: rest => return (.index n, ← expect .closeBracket rest)
  | ts => fail ts (.malformedBracket (current ts))

theorem length_of_expect {wanted : Token} {ts rest : List Placed}
    (h : expect wanted ts = .ok rest) : rest.length < ts.length := by
  unfold expect at h
  split at h
  · split at h
    · cases h; simp
    · simp [fail] at h
  · simp [fail] at h

theorem length_optionalInteger (ts : List Placed) :
    (optionalInteger ts).2.length ≤ ts.length := by
  unfold optionalInteger
  split <;> simp

theorem length_of_bracket {ts rest : List Placed} {c : Component}
    (h : bracket ts = .ok (c, rest)) : rest.length < ts.length := by
  have key : ∀ {c' : Component} {us : List Placed},
      (do return (c', ← expect .closeBracket us) : Except Problem _) = .ok (c, rest) →
        rest.length < us.length := by
    intro c' us h
    cases hu : expect .closeBracket us with
    | error e => rw [hu] at h; cases h
    | ok r => rw [hu] at h; cases h; exact length_of_expect hu
  unfold bracket at h
  split at h
  · cases h; simp
  · have := key h; simp; omega
  · next us => have := key h; have := length_optionalInteger us; simp; omega
  · next us => have := key h; have := length_optionalInteger us; simp; omega
  · have := key h; simp; omega
  · simp [fail] at h

/-- The components of a path, up to the first token that cannot go on with it. -/
def components (ts : List Placed) : Except Problem (Path × List Placed) :=
  match ts with
  | ⟨_, .dot⟩ :: ⟨_, .word name⟩ :: rest => do
    let (more, rest) ← components rest
    return (.field name :: more, rest)
  | ⟨_, .dot⟩ :: ⟨_, .openBracket⟩ :: rest =>
    match h : bracket rest with
    | .error e => .error e
    | .ok (c, rest') => do
      have := length_of_bracket h
      let (more, rest'') ← components rest'
      return (c :: more, rest'')
  | ⟨_, .dot⟩ :: rest => fail rest .fieldAfterDot
  | ⟨_, .openBracket⟩ :: rest =>
    match h : bracket rest with
    | .error e => .error e
    | .ok (c, rest') => do
      have := length_of_bracket h
      let (more, rest'') ← components rest'
      return (c :: more, rest'')
  | ts => .ok ([], ts)
termination_by ts.length

/-- A path: components, or a dot that nothing of a component follows, for the identity. -/
def path (ts : List Placed) : Except Problem (Path × List Placed) :=
  match ts with
  | ⟨_, .dot⟩ :: rest =>
    match current rest with
    | .word _ | .openBracket => components ts
    | _ => .ok ([], rest)
  | ⟨_, .openBracket⟩ :: _ => components ts
  | _ => fail ts (.pathExpected (current ts))

def literal? : List Placed → Option (Literal × List Placed)
  | ⟨_, .text value _⟩ :: rest => some (.text value, rest)
  | ⟨_, .integer n⟩ :: rest => some (.integer n, rest)
  | _ => none

inductive Argument where
  | comparison (c : Comparison)
  | path (p : Path)
  | literal (l : Literal)

def relation? : Token → Option Relation
  | .equal => some .equal
  | .notEqual => some .notEqual
  | _ => none

def argument (ts : List Placed) : Except Problem (Argument × List Placed) :=
  match literal? ts with
  | some (l, rest) => .ok (.literal l, rest)
  | none => do
    let (left, rest) ← path ts
    match relation? (current rest) with
    | none => return (.path left, rest)
    | some relation =>
      match literal? rest.tail with
      | none => fail rest.tail .literalExpected
      | some (right, rest) => return (.comparison ⟨left, relation, right⟩, rest)

/-- Further arguments, each behind a comma. -/
def moreArguments (fuel : Nat) (ts : List Placed) : Except Problem (List Argument × List Placed) :=
  match fuel, ts with
  | fuel + 1, ⟨_, .comma⟩ :: rest => do
    let (a, rest) ← argument rest
    let (as, rest) ← moreArguments fuel rest
    return (a :: as, rest)
  | _, ts => .ok ([], ts)

def arguments (ts : List Placed) : Except Problem (List Argument × List Placed) :=
  if current ts = .closeParen then .ok ([], ts)
  else do
    let (a, rest) ← argument ts
    let (as, rest) ← moreArguments rest.length rest
    return (a :: as, rest)

/-- A call of the function `name`, behind that name. -/
def call (position : Nat) (name : String) (ts : List Placed) : Except Problem (Step × List Placed) := do
  let rest ← expect .openParen ts
  let (args, rest) ← arguments rest
  let rest ← expect .closeParen rest
  if name != "select" then throw ⟨position, .unknownFunction name⟩
  match args with
  | [.comparison c] => return (.select c, rest)
  | _ => throw ⟨position, .oneComparison name⟩

def step (ts : List Placed) : Except Problem (Step × List Placed) :=
  match ts with
  | ⟨position, .word name⟩ :: rest => call position name rest
  | ts => do
    let (p, rest) ← path ts
    return (.path p, rest)

/-- Further steps, each behind a bar. -/
def moreSteps (fuel : Nat) (ts : List Placed) : Except Problem (List Step × List Placed) :=
  match fuel, ts with
  | fuel + 1, ⟨_, .pipe⟩ :: rest => do
    let (s, rest) ← step rest
    let (ss, rest) ← moreSteps fuel rest
    return (s :: ss, rest)
  | _, ts => .ok ([], ts)

def pipeline (ts : List Placed) : Except Problem (List Step) :=
  if current ts = .finish then .ok [.path []]
  else do
    let (s, rest) ← step ts
    let (ss, rest) ← moreSteps rest.length rest
    if current rest = .finish then return s :: ss
    else fail rest (.unexpected (current rest))

/-- Reads selector text. -/
def parse (selector : String) : Except Error Expression :=
  match tokens selector >>= pipeline with
  | .ok steps => .ok ⟨selector, steps⟩
  | .error problem => .error (.badSelector selector problem.position problem.fault)

end FieldPatch.Selector
