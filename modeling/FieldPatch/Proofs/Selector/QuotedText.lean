import FieldPatch.Selector.Lexer

/-! Quoted strings of selectors: the equations by which they are read, and how any string is
written so that it is read back. -/

namespace FieldPatch.Selector

/-- The character that an escape stands for. -/
def unescape? : Char → Option Char
  | 'n' => some '\n'
  | 'r' => some '\r'
  | 't' => some '\t'
  | '\\' => some '\\'
  | '"' => some '"'
  | '\'' => some '\''
  | _ => none

/-- The inside of a quoted string falls into escapes and other characters. -/
theorem quoted_induction {motive : List Char → Prop} (nil : motive []) (lone : motive ['\\'])
    (escape : ∀ c cs, motive cs → motive ('\\' :: c :: cs))
    (char : ∀ c cs, c ≠ '\\' → motive cs → motive (c :: cs)) : ∀ cs, motive cs
  | [] => nil
  | [c] => if hc : c = '\\' then hc ▸ lone else char c [] hc nil
  | c :: d :: cs =>
    if hc : c = '\\' then hc ▸ escape d cs (quoted_induction nil lone escape char cs)
    else char c (d :: cs) hc (quoted_induction nil lone escape char (d :: cs))

section

variable {quote c : Char} {start position : Nat} {cs : List Char}

theorem quotedText_escape {plain : Char} (h : unescape? c = some plain) :
    quotedText quote start position ('\\' :: c :: cs) =
      (quotedText quote start (position + 2) cs).map fun r => (plain :: r.1, r.2 + 2) := by
  unfold unescape? at h
  split at h <;> cases h <;>
    (rw [quotedText]; cases quotedText quote start (position + 2) cs <;> rfl)

theorem quotedText_unknownEscape (h : unescape? c = none) :
    quotedText quote start position ('\\' :: c :: cs) = .error ⟨position + 1, .unknownEscape c⟩ := by
  unfold unescape? at h
  split at h
  any_goals cases h
  rw [quotedText]
  · rfl
  all_goals assumption

theorem quotedText_plain (hc : c ≠ '\\') (hq : c ≠ quote) :
    quotedText quote start position (c :: cs) =
      (quotedText quote start (position + 1) cs).map fun r => (c :: r.1, r.2 + 1) := by
  rw [quotedText, if_neg hq]
  · cases quotedText quote start (position + 1) cs <;> rfl
  · exact hc

theorem quotedText_close (hc : quote ≠ '\\') :
    quotedText quote start position (quote :: cs) = .ok ([], 1) := by
  rw [quotedText, if_pos rfl]
  exact hc

end

/-- How a character is written between double quotes. -/
def escape : Char → List Char
  | '\n' => ['\\', 'n']
  | '\r' => ['\\', 'r']
  | '\t' => ['\\', 't']
  | '\\' => ['\\', '\\']
  | '"' => ['\\', '"']
  | c => [c]

def doubleQuoted (s : String) : String :=
  "\"" ++ String.ofList (s.toList.flatMap escape) ++ "\""

theorem escape_cases (c : Char) :
    (∃ e, escape c = ['\\', e] ∧ unescape? e = some c) ∨ escape c = [c] ∧ c ≠ '\\' ∧ c ≠ '"' := by
  unfold escape
  split
  iterate 5 exact .inl ⟨_, rfl, rfl⟩
  · next hb hq => exact .inr ⟨rfl, hb, hq⟩

/-- What is escaped is read back, whatever stands behind the closing quote. -/
theorem quotedText_flatMap_escape (start position : Nat) (cs rest : List Char) :
    quotedText '"' start position (cs.flatMap escape ++ '"' :: rest) =
      .ok (cs, (cs.flatMap escape).length + 1) := by
  induction cs generalizing position with
  | nil => exact quotedText_close (by decide)
  | cons c cs ih =>
    rw [List.flatMap_cons, List.append_assoc]
    rcases escape_cases c with ⟨e, he, hu⟩ | ⟨he, hb, hq⟩
    · rw [he, List.cons_append, List.cons_append, List.nil_append, quotedText_escape hu, ih]
      rfl
    · rw [he, List.cons_append, List.nil_append, quotedText_plain hb hq, ih]
      rfl

end FieldPatch.Selector
