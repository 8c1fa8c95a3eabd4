import FieldPatch.Proofs.Selector.Derivation
import FieldPatch.Proofs.Selector.QuotedText

/-! Where the text of a selector is found faulty: at a position within the text, or at its end.
Each part of the lexer and of the parser keeps to that. -/

namespace FieldPatch.Selector

/-- A fault lies at a position up to `n`, and what is read without one is as `Q` says. -/
def Sited {α : Type} (n : Nat) (Q : α → Prop) : Except Problem α → Prop
  | .error p => p.position ≤ n
  | .ok a => Q a

namespace Sited

variable {α β : Type} {n : Nat} {Q : α → Prop} {R : β → Prop}

theorem bind {r : Except Problem α} {f : α → Except Problem β} (hr : Sited n Q r)
    (hf : ∀ a, Q a → Sited n R (f a)) : Sited n R (r >>= f) := by
  cases r with
  | error p => exact hr
  | ok a => exact hf a hr

theorem map {r : Except Problem α} {f : α → β} (hr : Sited n Q r) (hf : ∀ a, Q a → R (f a)) :
    Sited n R (r.map f) := by
  cases r with
  | error p => exact hr
  | ok a => exact hf a hr

theorem ite {c : Prop} [Decidable c] {r s : Except Problem α} (hr : c → Sited n Q r)
    (hs : ¬ c → Sited n Q s) : Sited n Q (if c then r else s) := by
  split
  · next h => exact hr h
  · next h => exact hs h

end Sited

/-- `[A-Za-z_][A-Za-z0-9_-]*` -/
def isIdentifier (name : String) : Bool :=
  match name.toList with
  | [] => false
  | c :: cs => (c.isAlpha || c == '_') && cs.all fun d => d.isAlphanum || d == '_' || d == '-'

/-- Words are identifiers, integers fit in 64 bits with their sign. -/
def Token.WellFormed : Token → Prop
  | .word name => isIdentifier name = true
  | .integer i => fitsSigned64 i = true
  | .finish => False
  | _ => True

def UpTo (n : Nat) (ts : List Placed) : Prop := ∀ t ∈ ts, t.position ≤ n

section Lexer

variable {n position : Nat} {cs : List Char}

theorem sited_quotedText {quote : Char} {start : Nat} (hs : start ≤ n)
    (h : position + cs.length ≤ n) :
    Sited n (fun r => r.2 ≤ cs.length) (quotedText quote start position cs) := by
  induction cs using quoted_induction generalizing position with
  | nil => exact hs
  | lone => exact hs
  | escape c cs ih =>
    simp only [List.length_cons] at h ⊢
    cases hc : unescape? c with
    | none =>
      rw [quotedText_unknownEscape hc]
      show position + 1 ≤ n
      omega
    | some plain =>
      rw [quotedText_escape hc]
      exact (ih (by omega)).map fun r hr => by simpa using hr
  | char c cs hc ih =>
    simp only [List.length_cons] at h ⊢
    by_cases hq : c = quote
    · subst hq
      rw [quotedText_close hc]
      exact Nat.le_add_left 1 _
    · rw [quotedText_plain hc hq]
      exact (ih (by omega)).map fun r hr => by simpa using hr

theorem sited_integerToken (c : Char) (h : position ≤ n) :
    Sited n (fun r => r.1.WellFormed ∧ r.2 ≤ cs.length) (integerToken position c cs) := by
  unfold integerToken
  dsimp only
  split
  · next i hi => exact ⟨(Option.filter_eq_some_iff.mp hi).2, (List.takeWhile_prefix _).length_le⟩
  · exact h

theorem sited_lexeme {c : Char} (h : position + cs.length < n) :
    Sited n (fun r => r.1.WellFormed ∧ r.2 ≤ cs.length) (lexeme position c cs) := by
  have hp : position ≤ n := by omega
  have relation : ∀ {k : Token} {fault}, k.WellFormed → Sited n (fun r : Token × Nat => r.1.WellFormed ∧ r.2 ≤ cs.length)
      (if cs.head? = some '=' then .ok (k, 1) else .error ⟨position, fault⟩) := by
    refine fun hk => .ite (fun hh => ⟨hk, ?_⟩) fun _ => hp
    obtain ⟨ds, rfl⟩ := List.head?_eq_some_iff.mp hh
    exact Nat.le_add_left 1 _
  unfold lexeme
  iterate 8 refine .ite (fun _ => ⟨trivial, Nat.zero_le _⟩) fun _ => ?_
  iterate 2 refine .ite (fun _ => relation trivial) fun _ => ?_
  refine .ite (fun _ => ?_) fun _ => ?_
  · refine (sited_quotedText hp (by omega)).bind fun r hr => ⟨trivial, hr⟩
  iterate 2 refine .ite (fun _ => sited_integerToken c hp) fun _ => ?_
  refine .ite (fun hc => ⟨?_, (List.takeWhile_prefix _).length_le⟩) fun _ => hp
  show isIdentifier (String.ofList (c :: cs.takeWhile isWordChar)) = true
  rw [isIdentifier, String.toList_ofList, Bool.and_eq_true]
  exact ⟨hc, List.all_takeWhile⟩

/-- The tokens of a text are plausible up to its end, and stand at positions within it. -/
theorem sited_tokensFrom (position : Nat) (cs : List Char) (h : position + cs.length ≤ n) :
    Sited n (fun ts => UpTo n ts ∧
      ∃ ks, bare ts = ks ++ [.finish] ∧ ∀ k ∈ ks, k.WellFormed) (tokensFrom position cs) := by
  induction position, cs using tokensFrom.induct with
  | case1 position =>
    rw [tokensFrom]
    exact ⟨by simpa [UpTo] using h, [], rfl, by simp⟩
  | case2 position c cs hc ih =>
    rw [tokensFrom, if_pos hc]
    exact ih (by simp at h; omega)
  | case3 position c cs hc ih =>
    rw [tokensFrom, if_neg hc]
    simp only [List.length_cons] at h
    refine (sited_lexeme (by omega)).bind fun r hr => ?_
    refine (ih r.2 (by rw [List.length_drop]; omega)).bind fun ts hts => ?_
    obtain ⟨hup, ks, hks, hall⟩ := hts
    refine ⟨?_, r.1 :: ks, by rw [bare_cons, hks]; rfl, ?_⟩
    · exact List.forall_mem_cons.mpr ⟨by show position ≤ n; omega, hup⟩
    · exact List.forall_mem_cons.mpr ⟨hr.1, hall⟩

end Lexer

section Parser

variable {n : Nat} {ts : List Placed}

/-- A fault lies at a position up to `n`, and without one so do the remaining tokens. -/
abbrev SitedRest {α : Type} (n : Nat) : Except Problem (α × List Placed) → Prop :=
  Sited n fun r => UpTo n r.2

theorem UpTo.tail {t : Placed} (h : UpTo n (t :: ts)) : UpTo n ts :=
  (List.forall_mem_cons.mp h).2

theorem sited_fail {α : Type} {Q : α → Prop} (h : UpTo n ts) (fault : Fault) :
    Sited n Q (fail ts fault) := by
  cases ts with
  | nil => exact Nat.zero_le n
  | cons t rest => exact (List.forall_mem_cons.mp h).1

theorem sited_expect (h : UpTo n ts) (wanted : Token) : Sited n (UpTo n) (expect wanted ts) := by
  unfold expect
  split
  · exact .ite (fun _ => h.tail) fun _ => sited_fail h _
  · exact sited_fail h _

theorem upTo_optionalInteger (h : UpTo n ts) : UpTo n (optionalInteger ts).2 := by
  unfold optionalInteger
  split
  · exact h.tail
  · exact h

theorem sited_bracket (h : UpTo n ts) : SitedRest n (bracket ts) := by
  have closed : ∀ {us : List Placed} (c : Component), UpTo n us →
      SitedRest n (do return (c, ← expect .closeBracket us)) :=
    fun c hu => (sited_expect hu _).bind fun _ hr => hr
  unfold bracket
  split
  · exact h.tail
  · exact closed _ h.tail
  · exact closed _ (upTo_optionalInteger h.tail)
  · exact closed _ (upTo_optionalInteger h.tail.tail)
  · exact closed _ h.tail
  · exact sited_fail h _

theorem sited_components (h : UpTo n ts) : SitedRest n (components ts) := by
  fun_induction components ts with
  | case1 _ _ name rest ih => exact (ih h.tail.tail).bind fun _ hr => hr
  | case2 _ _ rest e he =>
    have hb := sited_bracket h.tail.tail
    rwa [he] at hb
  | case3 _ _ rest c rest' he _ ih =>
    have hb := sited_bracket h.tail.tail
    rw [he] at hb
    exact (ih hb).bind fun _ hr => hr
  | case4 => exact sited_fail h.tail _
  | case5 _ rest e he =>
    have hb := sited_bracket h.tail
    rwa [he] at hb
  | case6 _ rest c rest' he _ ih =>
    have hb := sited_bracket h.tail
    rw [he] at hb
    exact (ih hb).bind fun _ hr => hr
  | case7 => exact h

theorem sited_path (h : UpTo n ts) : SitedRest n (path ts) := by
  unfold path
  split
  · split
    · exact sited_components h
    · exact sited_components h
    · exact h.tail
  · exact sited_components h
  · exact sited_fail h _

theorem upTo_literal? {l : Literal} {rest : List Placed} (h : UpTo n ts)
    (hl : literal? ts = some (l, rest)) : UpTo n rest := by
  unfold literal? at hl
  split at hl
  · cases hl
    exact h.tail
  · cases hl
    exact h.tail
  · cases hl

theorem sited_argument (h : UpTo n ts) : SitedRest n (argument ts) := by
  unfold argument
  split
  · next hl => exact upTo_literal? h hl
  · refine (sited_path h).bind fun r hr => ?_
    have htail : UpTo n r.2.tail := fun t ht => hr t (List.mem_of_mem_tail ht)
    dsimp only
    split
    · exact hr
    · split
      · exact sited_fail htail _
      · next hl => exact upTo_literal? htail hl

theorem sited_moreArguments (fuel : Nat) (h : UpTo n ts) : SitedRest n (moreArguments fuel ts) := by
  fun_induction moreArguments fuel ts with
  | case1 fuel _ rest ih =>
    exact (sited_argument h.tail).bind fun _ ha => (ih _ ha).bind fun _ hr => hr
  | case2 => exact h

theorem sited_arguments (h : UpTo n ts) : SitedRest n (arguments ts) :=
  .ite (fun _ => h) fun _ =>
    (sited_argument h).bind fun _ ha => (sited_moreArguments _ ha).bind fun _ hr => hr

theorem sited_call {position : Nat} (hp : position ≤ n) (name : String) (h : UpTo n ts) :
    SitedRest n (call position name ts) := by
  refine (sited_expect h _).bind fun us hu => ?_
  refine (sited_arguments hu).bind fun r hr => ?_
  refine (sited_expect hr _).bind fun rest hrest => ?_
  refine .ite (fun _ => hp) fun _ => ?_
  dsimp only [bind, Except.bind, pure, Except.pure]
  split
  · exact hrest
  · exact hp

theorem sited_step (h : UpTo n ts) : SitedRest n (step ts) := by
  unfold step
  split
  · exact sited_call (List.forall_mem_cons.mp h).1 _ h.tail
  · exact (sited_path h).bind fun _ hr => hr

theorem sited_moreSteps (fuel : Nat) (h : UpTo n ts) : SitedRest n (moreSteps fuel ts) := by
  fun_induction moreSteps fuel ts with
  | case1 fuel _ rest ih =>
    exact (sited_step h.tail).bind fun _ hs => (ih _ hs).bind fun _ hr => hr
  | case2 => exact h

theorem sited_pipeline (h : UpTo n ts) : Sited n (fun _ => True) (pipeline ts) :=
  .ite (fun _ => trivial) fun _ =>
    (sited_step h).bind fun _ hs => (sited_moreSteps _ hs).bind fun _ hr =>
      .ite (fun _ => trivial) fun _ => sited_fail hr _

end Parser

end FieldPatch.Selector
