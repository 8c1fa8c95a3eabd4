import FieldPatch.Selector.Expression
import FieldPatch.Selector.Token

/-! The grammar of selectors, by its derivations:

    Selector  := (empty) | Step ("|" Step)*
    Step      := Path | "select" "(" Path ("==" | "!=") Literal ")"
    Path      := "." | Component+
    Component := "." Ident | ["."] "[" (empty | String | Int | [Int] ":" [Int]) "]"
    Literal   := String | Int

A derivation has the tokens that it derives and the syntax that these stand for. The grammar is
unambiguous: no two derivations have the same tokens. -/

namespace FieldPatch.Selector

/-- What stands between brackets. Of a string it is kept which quotes it has. -/
inductive BracketForm where
  | empty
  | text (name : String) (single : Bool)
  | integer (n : Int)
  | slice (first last : Option Int)

inductive ComponentForm where
  | field (name : String)
  | bracket (dotted : Bool) (b : BracketForm)

inductive PathForm where
  | dot
  | components (first : ComponentForm) (more : List ComponentForm)

inductive LiteralForm where
  | text (value : String) (single : Bool)
  | integer (n : Int)

inductive StepForm where
  | path (p : PathForm)
  | select (left : PathForm) (relation : Relation) (right : LiteralForm)

inductive SelectorForm where
  | empty
  | steps (first : StepForm) (more : List StepForm)

namespace BracketForm

/-- An integer that may be left out. -/
def bound (n : Option Int) : List Token := (n.map Token.integer).toList

def inside : BracketForm → List Token
  | .empty => []
  | .text name single => [.text name single]
  | .integer n => [.integer n]
  | .slice first last => bound first ++ .colon :: bound last

def tokens (b : BracketForm) : List Token := .openBracket :: b.inside ++ [.closeBracket]

def component : BracketForm → Component
  | .empty => .each
  | .text name _ => .key name
  | .integer n => .index n
  | .slice first last => .slice first last

end BracketForm

namespace ComponentForm

def tokens : ComponentForm → List Token
  | .field name => [.dot, .word name]
  | .bracket dotted b => (if dotted then [.dot] else []) ++ b.tokens

def component : ComponentForm → Component
  | .field name => .field name
  | .bracket _ b => b.component

end ComponentForm

namespace PathForm

def tokens : PathForm → List Token
  | .dot => [.dot]
  | .components first more => (first :: more).flatMap ComponentForm.tokens

def path : PathForm → Path
  | .dot => []
  | .components first more => (first :: more).map ComponentForm.component

end PathForm

namespace LiteralForm

def token : LiteralForm → Token
  | .text value single => .text value single
  | .integer n => .integer n

def literal : LiteralForm → Literal
  | .text value _ => .text value
  | .integer n => .integer n

end LiteralForm

def Relation.token : Relation → Token
  | .equal => .equal
  | .notEqual => .notEqual

namespace StepForm

def tokens : StepForm → List Token
  | .path p => p.tokens
  | .select left relation right =>
    .word "select" :: .openParen :: left.tokens ++ [relation.token, right.token, .closeParen]

def step : StepForm → Step
  | .path p => .path p.path
  | .select left relation right => .select ⟨left.path, relation, right.literal⟩

/-- Steps that follow others, each behind a bar. -/
def moreTokens (steps : List StepForm) : List Token := steps.flatMap fun s => .pipe :: s.tokens

end StepForm

namespace SelectorForm

def tokens : SelectorForm → List Token
  | .empty => []
  | .steps first more => first.tokens ++ StepForm.moreTokens more

/-- The empty selector is the identity. -/
def meaning : SelectorForm → List Step
  | .empty => [.path []]
  | .steps first more => (first :: more).map StepForm.step

end SelectorForm

/-- Tokens that cannot go on with a path. -/
def endsPath (ks : List Token) : Prop :=
  ks.head? ≠ some .dot ∧ ks.head? ≠ some .openBracket ∧ ∀ name, ks.head? ≠ some (.word name)

theorem BracketForm.tokens_append_inj {b b' : BracketForm} {ks ks' : List Token}
    (h : b.tokens ++ ks = b'.tokens ++ ks') : b = b' ∧ ks = ks' := by
  rcases b with _ | ⟨name, single⟩ | n | ⟨_ | n, _ | m⟩ <;>
    rcases b' with _ | ⟨name', single'⟩ | n' | ⟨_ | n', _ | m'⟩ <;>
    simp_all [tokens, inside, bound]

theorem ComponentForm.tokens_append_inj {c c' : ComponentForm} {ks ks' : List Token}
    (h : c.tokens ++ ks = c'.tokens ++ ks') : c = c' ∧ ks = ks' := by
  cases c with
  | field name =>
    cases c' with
    | field name' => simpa [tokens] using h
    | bracket dotted' b' => cases dotted' <;> simp_all [tokens, BracketForm.tokens]
  | bracket dotted b =>
    cases c' with
    | field name' => cases dotted <;> simp_all [tokens, BracketForm.tokens]
    | bracket dotted' b' =>
      have hd : dotted = dotted' := by
        cases dotted <;> cases dotted' <;> simp_all [tokens, BracketForm.tokens]
      subst hd
      have hb : b.tokens ++ ks = b'.tokens ++ ks' := by
        cases dotted <;> simpa [tokens] using h
      obtain ⟨rfl, hk⟩ := BracketForm.tokens_append_inj hb
      exact ⟨rfl, hk⟩

theorem ComponentForm.exists_head_tokens (c : ComponentForm) :
    ∃ k rest, c.tokens = k :: rest ∧ (k = .dot ∨ k = .openBracket) := by
  cases c with
  | field name => exact ⟨_, _, rfl, .inl rfl⟩
  | bracket dotted b =>
    cases dotted
    · exact ⟨_, _, rfl, .inr rfl⟩
    · exact ⟨_, _, rfl, .inl rfl⟩

theorem not_endsPath_component (c : ComponentForm) (ks : List Token) :
    ¬ endsPath (c.tokens ++ ks) := by
  obtain ⟨k, rest, hk, rfl | rfl⟩ := c.exists_head_tokens <;> simp [hk, endsPath]

theorem flatMap_tokens_append_inj {cs cs' : List ComponentForm} {ks ks' : List Token}
    (hk : endsPath ks) (hk' : endsPath ks')
    (h : cs.flatMap ComponentForm.tokens ++ ks = cs'.flatMap ComponentForm.tokens ++ ks') :
    cs = cs' ∧ ks = ks' := by
  induction cs generalizing cs' with
  | nil =>
    cases cs' with
    | nil => exact ⟨rfl, by simpa using h⟩
    | cons c' cs' =>
      rw [List.flatMap_cons, List.append_assoc, List.flatMap_nil, List.nil_append] at h
      exact absurd (h ▸ hk) (not_endsPath_component c' _)
  | cons c cs ih =>
    cases cs' with
    | nil =>
      rw [List.flatMap_cons, List.append_assoc, List.flatMap_nil, List.nil_append] at h
      exact absurd (h ▸ hk') (not_endsPath_component c _)
    | cons c' cs' =>
      simp only [List.flatMap_cons, List.append_assoc] at h
      obtain ⟨rfl, hr⟩ := ComponentForm.tokens_append_inj h
      obtain ⟨rfl, hk⟩ := ih hr
      exact ⟨rfl, hk⟩

theorem PathForm.exists_head_tokens (p : PathForm) :
    ∃ k rest, p.tokens = k :: rest ∧ (k = .dot ∨ k = .openBracket) := by
  cases p with
  | dot => exact ⟨_, _, rfl, .inl rfl⟩
  | components first more =>
    obtain ⟨k, rest, hk, ho⟩ := first.exists_head_tokens
    exact ⟨k, rest ++ more.flatMap ComponentForm.tokens, by simp [tokens, hk], ho⟩

/-- A dot alone is no path that a component could go on from. -/
theorem dot_append_ne_components (first : ComponentForm) (more : List ComponentForm)
    {ks : List Token} (hk : endsPath ks) (ks' : List Token) :
    PathForm.dot.tokens ++ ks ≠ (PathForm.components first more).tokens ++ ks' := by
  intro h
  rcases first with name | ⟨_ | _, b⟩ <;>
    simp_all [PathForm.tokens, ComponentForm.tokens, BracketForm.tokens, endsPath]

theorem PathForm.tokens_append_inj {p p' : PathForm} {ks ks' : List Token} (hk : endsPath ks)
    (hk' : endsPath ks') (h : p.tokens ++ ks = p'.tokens ++ ks') : p = p' ∧ ks = ks' := by
  cases p with
  | dot =>
    cases p' with
    | dot => simpa [tokens] using h
    | components first' more' => exact absurd h (dot_append_ne_components first' more' hk ks')
  | components first more =>
    cases p' with
    | dot => exact absurd h.symm (dot_append_ne_components first more hk' ks)
    | components first' more' =>
      obtain ⟨he, hr⟩ := flatMap_tokens_append_inj hk hk' h
      cases he
      exact ⟨rfl, hr⟩

theorem LiteralForm.token_inj {l l' : LiteralForm} (h : l.token = l'.token) : l = l' := by
  cases l <;> cases l' <;> simp_all [token]

theorem Relation.token_inj {r r' : Relation} (h : r.token = r'.token) : r = r' := by
  cases r <;> cases r' <;> simp_all [token]

theorem endsPath_relation (r : Relation) (ks : List Token) : endsPath (r.token :: ks) := by
  cases r <;> simp [endsPath, Relation.token]

theorem StepForm.tokens_append_inj {s s' : StepForm} {ks ks' : List Token} (hk : endsPath ks)
    (hk' : endsPath ks') (h : s.tokens ++ ks = s'.tokens ++ ks') : s = s' ∧ ks = ks' := by
  have path_ne : ∀ (p : PathForm) (us vs : List Token), p.tokens ++ us ≠ .word "select" :: vs := by
    intro p us vs
    obtain ⟨k, rest, hp, rfl | rfl⟩ := p.exists_head_tokens <;> simp [hp]
  cases s with
  | path p =>
    cases s' with
    | path p' =>
      obtain ⟨rfl, hr⟩ := PathForm.tokens_append_inj hk hk' h
      exact ⟨rfl, hr⟩
    | select left' relation' right' => exact absurd h (path_ne p ks _)
  | select left relation right =>
    cases s' with
    | path p' => exact absurd h.symm (path_ne p' ks' _)
    | select left' relation' right' =>
      simp only [tokens, List.cons_append, List.append_assoc, List.cons.injEq, true_and] at h
      obtain ⟨rfl, hr⟩ :=
        PathForm.tokens_append_inj (endsPath_relation relation _) (endsPath_relation relation' _) h
      simp only [List.cons.injEq, List.nil_append, true_and] at hr
      obtain ⟨hrel, hlit, hr⟩ := hr
      rw [Relation.token_inj hrel, LiteralForm.token_inj hlit]
      exact ⟨rfl, hr⟩

theorem StepForm.tokens_ne_nil (s : StepForm) : s.tokens ≠ [] := by
  cases s with
  | path p =>
    obtain ⟨k, rest, hk, -⟩ := p.exists_head_tokens
    simp [tokens, hk]
  | select left relation right => simp [tokens]

theorem StepForm.moreTokens_cons (s : StepForm) (more : List StepForm) :
    moreTokens (s :: more) = .pipe :: (s.tokens ++ moreTokens more) := by
  simp [moreTokens]

theorem endsPath_moreTokens (steps : List StepForm) {ks : List Token} (hk : endsPath ks) :
    endsPath (StepForm.moreTokens steps ++ ks) := by
  cases steps with
  | nil => exact hk
  | cons s more => simp [StepForm.moreTokens_cons, endsPath]

theorem StepForm.moreTokens_inj {steps steps' : List StepForm}
    (h : moreTokens steps = moreTokens steps') : steps = steps' := by
  have hnil : endsPath ([] : List Token) := by simp [endsPath]
  induction steps generalizing steps' with
  | nil =>
    cases steps' with
    | nil => rfl
    | cons s' more' => simp [moreTokens] at h
  | cons s more ih =>
    cases steps' with
    | nil => simp [moreTokens] at h
    | cons s' more' =>
      simp only [moreTokens_cons, List.cons.injEq, true_and] at h
      have hm := endsPath_moreTokens more hnil
      have hm' := endsPath_moreTokens more' hnil
      rw [List.append_nil] at hm hm'
      obtain ⟨rfl, hr⟩ := tokens_append_inj hm hm' h
      rw [ih hr]

/-- The grammar is unambiguous. -/
theorem SelectorForm.tokens_inj {d d' : SelectorForm} (h : d.tokens = d'.tokens) : d = d' := by
  cases d with
  | empty =>
    cases d' with
    | empty => rfl
    | steps first' more' => simp [tokens, first'.tokens_ne_nil] at h
  | steps first more =>
    cases d' with
    | empty => simp [tokens, first.tokens_ne_nil] at h
    | steps first' more' =>
      -- the tokens of both, read as those of steps that follow others
      have hm : StepForm.moreTokens (first :: more) = StepForm.moreTokens (first' :: more') := by
        simp only [StepForm.moreTokens_cons]
        exact congrArg _ h
      cases StepForm.moreTokens_inj hm
      rfl

/-- The end of the text is not among the tokens of a derivation. -/
theorem BracketForm.finish_notMem (b : BracketForm) : .finish ∉ b.tokens := by
  rcases b with _ | _ | _ | ⟨_ | _, _ | _⟩ <;> simp [tokens, inside, bound]

theorem ComponentForm.finish_notMem (c : ComponentForm) : .finish ∉ c.tokens := by
  cases c with
  | field name => simp [tokens]
  | bracket dotted b => cases dotted <;> simp [tokens, b.finish_notMem]

theorem PathForm.finish_notMem (p : PathForm) : .finish ∉ p.tokens := by
  cases p with
  | dot => simp [tokens]
  | components first more => simp [tokens, ComponentForm.finish_notMem]

theorem StepForm.finish_notMem (s : StepForm) : .finish ∉ s.tokens := by
  cases s with
  | path p => exact p.finish_notMem
  | select left relation right =>
    cases relation <;> cases right <;>
      simp [tokens, left.finish_notMem, Relation.token, LiteralForm.token]

theorem SelectorForm.finish_notMem (d : SelectorForm) : .finish ∉ d.tokens := by
  cases d with
  | empty => simp [tokens]
  | steps first more =>
    simp [tokens, StepForm.moreTokens, StepForm.finish_notMem]

end FieldPatch.Selector
