import FieldPatch.Proofs.Selector.Language
import FieldPatch.Proofs.Selector.Spelling

/-! The canonical text of the steps of a selector. What is printed is parsed back, and what the
parser accepts can be printed. -/

namespace FieldPatch.Selector

/-- A bound of a slice, nothing when it is left out. -/
def canonicalBound : Option Int → String
  | none => ""
  | some n => toString n

def bracketed (s : String) : String := "[" ++ s ++ "]"

namespace Component

def canonical : Component → String
  | .field name => "." ++ name
  | .key name => bracketed (doubleQuoted name)
  | .index i => bracketed (toString i)
  | .slice first last => bracketed (canonicalBound first ++ ":" ++ canonicalBound last)
  | .each => bracketed ""

/-- Field names are identifiers, integers fit in 64 bits with their sign. -/
def WellFormed : Component → Prop
  | .field name => isIdentifier name = true
  | .index i => fitsSigned64 i = true
  | .slice first last => first.all fitsSigned64 = true ∧ last.all fitsSigned64 = true
  | .key _ | .each => True

/-- How the grammar derives the canonical text. -/
def form : Component → ComponentForm
  | .field name => .field name
  | .key name => .bracket false (.text name false)
  | .index i => .bracket false (.integer i)
  | .slice first last => .bracket false (.slice first last)
  | .each => .bracket false .empty

end Component

def canonicalPath : Path → String
  | [] => "."
  | c :: cs => String.join ((c :: cs).map Component.canonical)

def pathForm : Path → PathForm
  | [] => .dot
  | c :: cs => .components c.form (cs.map Component.form)

namespace Literal

def canonical : Literal → String
  | .text s => doubleQuoted s
  | .integer n => toString n

def WellFormed : Literal → Prop
  | .text _ => True
  | .integer n => fitsSigned64 n = true

def form : Literal → LiteralForm
  | .text s => .text s false
  | .integer n => .integer n

end Literal

namespace Step

def canonical : Step → String
  | .path p => canonicalPath p
  | .select c => "select(" ++ canonicalPath c.left ++ " " ++ c.relation.canonical ++ " " ++
      c.right.canonical ++ ")"

def WellFormed : Step → Prop
  | .path p => ∀ c ∈ p, c.WellFormed
  | .select condition => (∀ c ∈ condition.left, c.WellFormed) ∧ condition.right.WellFormed

def form : Step → StepForm
  | .path p => .path (pathForm p)
  | .select c => .select (pathForm c.left) c.relation c.right.form

end Step

def canonicalText (steps : List Step) : String :=
  " | ".intercalate (steps.map Step.canonical)

def selectorForm : List Step → SelectorForm
  | [] => .empty
  | s :: ss => .steps s.form (ss.map Step.form)

section Meaning

@[simp]
theorem Component.component_form (c : Component) : c.form.component = c := by
  cases c <;> rfl

@[simp]
theorem path_pathForm (p : Path) : (pathForm p).path = p := by
  cases p with
  | nil => rfl
  | cons c cs => simp [pathForm, PathForm.path, Function.comp_def]

@[simp]
theorem Literal.literal_form (l : Literal) : l.form.literal = l := by
  cases l <;> rfl

@[simp]
theorem Step.step_form (s : Step) : s.form.step = s := by
  cases s <;> simp [form, StepForm.step]

theorem meaning_selectorForm {steps : List Step} (h : steps ≠ []) :
    (selectorForm steps).meaning = steps := by
  obtain ⟨s, ss, rfl⟩ := List.exists_cons_of_ne_nil h
  simp [selectorForm, SelectorForm.meaning, Function.comp_def]

end Meaning

section Printed

variable {rest : List Char} {ks : List Token}

theorem Reads.bound (h : Reads rest ks) (hrest : Apart rest) {n : Option Int}
    (hn : n.all fitsSigned64 = true) :
    Reads ((canonicalBound n).toList ++ rest) (BracketForm.bound n ++ ks) := by
  cases n with
  | none => exact h
  | some n => exact h.integer hrest hn

theorem toList_bracketed (s : String) (rest : List Char) :
    (bracketed s).toList ++ rest = '[' :: (s.toList ++ ']' :: rest) := by
  simp [bracketed]

/-- Components begin with a dot or a bracket. -/
theorem Component.apart (c : Component) (rest : List Char) :
    Apart (c.canonical.toList ++ rest) := by
  have hc : ∃ d cs, c.canonical.toList = d :: cs ∧ (d = '.' ∨ d = '[') := by
    cases c <;> simp [canonical, bracketed]
  obtain ⟨d, cs, hcs, hd⟩ := hc
  rw [hcs]
  exact apart_cons (by rcases hd with rfl | rfl <;> rfl) _

theorem Reads.bracketed (b : BracketForm) {s : String}
    (h : Reads (s.toList ++ ']' :: rest) (b.inside ++ .closeBracket :: ks)) :
    Reads ((bracketed s).toList ++ rest) ((ComponentForm.bracket false b).tokens ++ ks) := by
  rw [toList_bracketed]
  simpa [ComponentForm.tokens, BracketForm.tokens] using h.mark (c := '[') rfl

theorem Reads.component (h : Reads rest ks) (hrest : Apart rest) {c : Component}
    (hc : c.WellFormed) : Reads (c.canonical.toList ++ rest) (c.form.tokens ++ ks) := by
  have hclose : Reads (']' :: rest) (.closeBracket :: ks) := h.mark rfl
  have hapart : Apart (']' :: rest) := apart_cons rfl rest
  cases c with
  | field name =>
    have htext : (Component.field name).canonical.toList ++ rest = '.' :: (name.toList ++ rest) := by
      simp [Component.canonical]
    rw [htext]
    exact (h.word hrest hc).mark rfl
  | key name => exact .bracketed (.text name false) (hclose.doubleQuoted name)
  | index i => exact .bracketed (.integer i) (hclose.integer hapart hc)
  | slice first last =>
    have hlast := (hclose.bound hapart hc.2).mark (c := ':') rfl
    have hfirst := hlast.bound (apart_cons rfl _) hc.1
    refine .bracketed (.slice first last) ?_
    simpa [BracketForm.inside] using hfirst
  | each => exact .bracketed .empty hclose

theorem Reads.components (h : Reads rest ks) (hrest : Apart rest) {p : Path}
    (hp : ∀ c ∈ p, c.WellFormed) :
    Reads (p.flatMap (fun c => c.canonical.toList) ++ rest)
        ((p.map Component.form).flatMap ComponentForm.tokens ++ ks) ∧
      Apart (p.flatMap (fun c => c.canonical.toList) ++ rest) := by
  induction p with
  | nil => exact ⟨h, hrest⟩
  | cons c cs ih =>
    obtain ⟨hc, hcs⟩ := List.forall_mem_cons.mp hp
    obtain ⟨hr, ha⟩ := ih hcs
    simp only [List.flatMap_cons, List.map_cons, List.append_assoc]
    exact ⟨hr.component ha hc, c.apart _⟩

theorem Reads.path (h : Reads rest ks) (hrest : Apart rest) {p : Path}
    (hp : ∀ c ∈ p, c.WellFormed) :
    Reads ((canonicalPath p).toList ++ rest) ((pathForm p).tokens ++ ks) := by
  cases p with
  | nil => exact h.mark (c := '.') rfl
  | cons c cs =>
    have htext : (canonicalPath (c :: cs)).toList =
        (c :: cs).flatMap fun c => c.canonical.toList := by
      rw [canonicalPath, String.toList_join, List.flatMap_map]
    rw [htext]
    exact (h.components hrest hp).1

theorem Reads.literal (h : Reads rest ks) (hrest : Apart rest) {l : Literal}
    (hl : l.WellFormed) : Reads (l.canonical.toList ++ rest) (l.form.token :: ks) := by
  cases l with
  | text s => exact h.doubleQuoted s
  | integer n => exact h.integer hrest hl

theorem Reads.step (h : Reads rest ks) (hrest : Apart rest) {s : Step} (hs : s.WellFormed) :
    Reads (s.canonical.toList ++ rest) (s.form.tokens ++ ks) := by
  cases s with
  | path p => exact h.path hrest hs
  | select c =>
    obtain ⟨hleft, hright⟩ := hs
    have hclose : Reads (')' :: rest) (.closeParen :: ks) := h.mark rfl
    have hlit := (hclose.literal (apart_cons rfl _) hright).blank (c := ' ') rfl
    have hrel := (hlit.relation c.relation).blank (c := ' ') rfl
    have hpath := (hrel.path (apart_cons rfl _) hleft).mark (c := '(') rfl
    have hselect : isIdentifier "select" = true := by decide
    have hr := hpath.word (apart_cons rfl _) hselect
    simpa [Step.canonical, Step.form, StepForm.tokens] using hr

theorem Reads.moreSteps {steps : List Step} (hs : ∀ s ∈ steps, s.WellFormed) :
    Reads (steps.flatMap fun s => " | ".toList ++ s.canonical.toList)
        (StepForm.moreTokens (steps.map Step.form) ++ [.finish]) ∧
      Apart (steps.flatMap fun s => " | ".toList ++ s.canonical.toList) := by
  induction steps with
  | nil => exact ⟨reads_nil, apart_nil⟩
  | cons s ss ih =>
    obtain ⟨hs, hss⟩ := List.forall_mem_cons.mp hs
    obtain ⟨hr, ha⟩ := ih hss
    have hstep := (((hr.step ha hs).blank (c := ' ') rfl).mark (c := '|') rfl).blank (c := ' ') rfl
    refine ⟨?_, apart_cons rfl _⟩
    rw [List.map_cons, StepForm.moreTokens_cons, List.cons_append, List.append_assoc]
    exact hstep

end Printed

theorem toList_canonicalText (s : Step) (ss : List Step) :
    (canonicalText (s :: ss)).toList =
      s.canonical.toList ++ ss.flatMap fun s => " | ".toList ++ s.canonical.toList := by
  rw [canonicalText, String.toList_intercalate]
  induction ss generalizing s with
  | nil => simp
  | cons s' ss ih =>
    simp only [List.map_cons, List.intercalate_cons_cons, List.flatMap_cons, List.append_assoc] at ih ⊢
    rw [ih]

section Read

theorem BracketForm.wellFormed_component {b : BracketForm} (h : ∀ k ∈ b.tokens, k.WellFormed) :
    b.component.WellFormed := by
  rcases b with _ | ⟨name, single⟩ | n | ⟨_ | n, _ | m⟩ <;>
    simp_all [tokens, inside, bound, component, Token.WellFormed, Component.WellFormed]

theorem ComponentForm.wellFormed_component {c : ComponentForm}
    (h : ∀ k ∈ c.tokens, k.WellFormed) : c.component.WellFormed := by
  cases c with
  | field name => exact h (.word name) (by simp [tokens])
  | bracket dotted b => exact b.wellFormed_component fun k hk => h k (List.mem_append_right _ hk)

theorem PathForm.wellFormed_path {p : PathForm} (h : ∀ k ∈ p.tokens, k.WellFormed) :
    ∀ c ∈ p.path, c.WellFormed := by
  cases p with
  | dot => simp [path]
  | components first more =>
    intro c hc
    obtain ⟨f, hf, rfl⟩ := List.mem_map.mp hc
    exact f.wellFormed_component fun k hk => h k (List.mem_flatMap.mpr ⟨f, hf, hk⟩)

theorem LiteralForm.wellFormed_literal {l : LiteralForm} (h : l.token.WellFormed) :
    l.literal.WellFormed := by
  cases l with
  | text value single => trivial
  | integer n => exact h

theorem StepForm.wellFormed_step {s : StepForm} (h : ∀ k ∈ s.tokens, k.WellFormed) :
    s.step.WellFormed := by
  cases s with
  | path p => exact p.wellFormed_path h
  | select left relation right =>
    exact ⟨left.wellFormed_path fun k hk => h k (by simp [tokens, hk]),
      right.wellFormed_literal (h _ (by simp [tokens]))⟩

theorem SelectorForm.meaning_ne_nil (d : SelectorForm) : d.meaning ≠ [] := by
  cases d <;> simp [meaning]

theorem SelectorForm.wellFormed_meaning {d : SelectorForm} (h : ∀ k ∈ d.tokens, k.WellFormed) :
    ∀ s ∈ d.meaning, s.WellFormed := by
  cases d with
  | empty => simp [meaning, Step.WellFormed]
  | steps first more =>
    intro s hs
    obtain ⟨f, hf, rfl⟩ := List.mem_map.mp hs
    refine f.wellFormed_step fun k hk => h k ?_
    rcases List.mem_cons.mp hf with rfl | hf
    · exact List.mem_append_left _ hk
    · exact List.mem_append_right _ (List.mem_flatMap.mpr ⟨f, hf, List.mem_cons_of_mem _ hk⟩)

theorem wellFormed_of_parse {s : String} {e : Expression} (h : parse s = .ok e) :
    e.steps ≠ [] ∧ ∀ st ∈ e.steps, st.WellFormed := by
  obtain ⟨d, hd, rfl⟩ := parse_sound h
  exact ⟨d.meaning_ne_nil, d.wellFormed_meaning hd.wellFormed⟩

end Read

theorem lexes_canonicalText {steps : List Step} (hne : steps ≠ [])
    (hs : ∀ s ∈ steps, s.WellFormed) :
    Lexes (canonicalText steps) (selectorForm steps).tokens := by
  obtain ⟨s, ss, rfl⟩ := List.exists_cons_of_ne_nil hne
  obtain ⟨hs, hss⟩ := List.forall_mem_cons.mp hs
  obtain ⟨hr, ha⟩ := Reads.moreSteps hss
  have hread := hr.step ha hs
  rw [← toList_canonicalText, ← List.append_assoc] at hread
  exact hread 0

theorem parse_canonicalText {steps : List Step} (hne : steps ≠ [])
    (hs : ∀ s ∈ steps, s.WellFormed) :
    parse (canonicalText steps) = .ok ⟨canonicalText steps, steps⟩ := by
  rw [parse_of_lexes (lexes_canonicalText hne hs), meaning_selectorForm hne]

/-- Well-formed steps are parsed back from their canonical text, and the parser returns no others.
So the canonical text of whatever is accepted has the same steps; a quoted key stays a key, be it
of digits. -/
theorem parse_inverts_canonicalText :
    (∀ steps : List Step, steps ≠ [] → (∀ st ∈ steps, st.WellFormed) →
      parse (canonicalText steps) = .ok ⟨canonicalText steps, steps⟩) ∧
    (∀ s e, parse s = .ok e → (e.steps ≠ [] ∧ ∀ st ∈ e.steps, st.WellFormed) ∧
      parse (canonicalText e.steps) = .ok ⟨canonicalText e.steps, e.steps⟩) ∧
    ∀ name, parse (canonicalText [.path [.key name]]) =
      .ok ⟨canonicalText [.path [.key name]], [.path [.key name]]⟩ := by
  refine ⟨fun steps => parse_canonicalText, fun s e h => ?_, fun name => ?_⟩
  · obtain ⟨hne, hs⟩ := wellFormed_of_parse h
    exact ⟨⟨hne, hs⟩, parse_canonicalText hne hs⟩
  · exact parse_canonicalText (by simp) (by simp [Step.WellFormed, Component.WellFormed])

end FieldPatch.Selector
