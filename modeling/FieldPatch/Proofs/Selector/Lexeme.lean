import FieldPatch.Proofs.Selector.Spelling

/-! The lexemes of selectors. What is taken at the head of a text is a lexeme, and it is the same
one whatever stands behind it, as long as that does not go on with a word or an integer. -/

namespace FieldPatch.Selector

/-- The inside of a quoted string, and what it stands for. -/
inductive Quotes (quote : Char) : List Char → List Char → Prop
  | nil : Quotes quote [] []
  | escape {c plain : Char} {inside value : List Char} (hc : unescape? c = some plain)
    (h : Quotes quote inside value) : Quotes quote ('\\' :: c :: inside) (plain :: value)
  | char {c : Char} {inside value : List Char} (hc : c ≠ '\\') (hq : c ≠ quote)
    (h : Quotes quote inside value) : Quotes quote (c :: inside) (c :: value)

/-- The spellings of tokens. -/
inductive Spells : List Char → Token → Prop
  | mark {c : Char} {k : Token} (hc : mark? c = some k) : Spells [c] k
  | comma : Spells [','] .comma
  | equal : Spells ['=', '='] .equal
  | notEqual : Spells ['!', '='] .notEqual
  | text {quote : Char} {inside value : List Char} (hq : quote = '"' ∨ quote = '\'')
    (h : Quotes quote inside value) :
    Spells (quote :: (inside ++ [quote])) (.text (String.ofList value) (quote == '\''))
  | integer {c : Char} {w : List Char} {n : Int} (hc : c.isDigit = true ∨ c = '-')
    (hw : ∀ d ∈ w, d.isDigit = true) (hn : readSigned64? (c :: w) = some n) :
    Spells (c :: w) (.integer n)
  | word {c : Char} {w : List Char} (hc : isWordStart c = true)
    (hw : ∀ d ∈ w, isWordChar d = true) : Spells (c :: w) (.word (String.ofList (c :: w)))

/-- Whether a character right behind the token would belong to it. -/
def Token.goesOnWith : Token → Char → Bool
  | .integer _ => Char.isDigit
  | .word _ => isWordChar
  | _ => fun _ => false

/-- The token ends where this text begins. -/
def Token.EndsAt (k : Token) (rest : List Char) : Prop :=
  ∀ c ∈ rest.head?, k.goesOnWith c = false

/-- At the head of a text stands a spelling of a token, with as many characters behind the first
one, and the token ends behind it. -/
def Leads (c : Char) (cs : List Char) (k : Token) (taken : Nat) : Prop :=
  ∃ w rest, cs = w ++ rest ∧ taken = w.length ∧ Spells (c :: w) k ∧ k.EndsAt rest

section Quoted

variable {quote : Char} {start position taken : Nat} {cs value : List Char}

theorem quotedText_of_quotes (hquote : quote ≠ '\\') {inside : List Char}
    (h : Quotes quote inside value) (rest : List Char) :
    quotedText quote start position (inside ++ quote :: rest) = .ok (value, inside.length + 1) := by
  induction h generalizing position with
  | nil => exact quotedText_close hquote
  | escape hc _ ih => rw [List.cons_append, List.cons_append, quotedText_escape hc, ih]; rfl
  | char hc hq _ ih => rw [List.cons_append, quotedText_plain hc hq, ih]; rfl

theorem quotes_of_quotedText (h : quotedText quote start position cs = .ok (value, taken)) :
    ∃ inside rest, cs = inside ++ quote :: rest ∧ taken = inside.length + 1 ∧
      Quotes quote inside value := by
  induction cs using quoted_induction generalizing position value taken with
  | nil => cases h
  | lone => cases h
  | escape c cs ih =>
    cases hc : unescape? c with
    | none => rw [quotedText_unknownEscape hc] at h; cases h
    | some plain =>
      rw [quotedText_escape hc] at h
      obtain ⟨⟨v, n⟩, hr, he⟩ := ok_of_map h
      cases he
      obtain ⟨inside, rest, rfl, rfl, hv⟩ := ih hr
      exact ⟨'\\' :: c :: inside, rest, rfl, rfl, .escape hc hv⟩
  | char c cs hc ih =>
    by_cases hq : c = quote
    · subst hq
      rw [quotedText_close hc] at h
      cases h
      exact ⟨[], cs, rfl, rfl, .nil⟩
    · rw [quotedText_plain hc hq] at h
      obtain ⟨⟨v, n⟩, hr, he⟩ := ok_of_map h
      cases he
      obtain ⟨inside, rest, rfl, rfl, hv⟩ := ih hr
      exact ⟨c :: inside, rest, rfl, rfl, .char hc hq hv⟩

end Quoted

theorem stops_dropWhile (p : Char → Bool) (cs : List Char) :
    ∀ c ∈ (cs.dropWhile p).head?, p c = false := by
  intro c hc
  have hh := List.head?_dropWhile_not p cs
  rw [Option.mem_def.mp hc] at hh
  exact hh

section Lexeme

variable {position taken : Nat} {c : Char} {cs w rest : List Char} {k : Token}

theorem startsWithDigit_of_readSigned64? {n : Int} (h : readSigned64? ('-' :: w) = some n)
    (hw : ∀ d ∈ w, d.isDigit = true) : startsWithDigit (w ++ rest) = true := by
  cases w with
  | nil => cases h
  | cons d w => exact hw d List.mem_cons_self

theorem lexeme_of_quote (hc : c = '"' ∨ c = '\'') : lexeme position c cs =
    (quotedText c position (position + 1) cs).map fun r =>
      (.text (String.ofList r.1) (c == '\''), r.2) := by
  have hread : lexeme position c cs = quotedText c position (position + 1) cs >>= fun r =>
      .ok (.text (String.ofList r.1) (c == '\''), r.2) := by
    rcases hc with rfl | rfl <;> rfl
  rw [hread]
  cases quotedText c position (position + 1) cs <;> rfl

/-- A spelling is taken whole where its token ends behind it. -/
theorem lexeme_of_spells (h : Spells (c :: w) k) (hk : k.EndsAt rest) :
    lexeme position c (w ++ rest) = .ok (k, w.length) := by
  cases h with
  | mark hc => unfold mark? at hc; split at hc <;> cases hc <;> rfl
  | comma => rfl
  | equal => rfl
  | notEqual => rfl
  | text hq h =>
    have hquote : c ≠ '\\' := by rintro rfl; revert hq; decide
    rw [lexeme_of_quote hq, List.append_assoc, List.singleton_append,
      quotedText_of_quotes hquote h, List.length_append]
    rfl
  | integer hc hw hn =>
    have hstart : c.isDigit = true ∨ c = '-' ∧ startsWithDigit (w ++ rest) = true := by
      refine hc.imp_right fun he => ⟨he, ?_⟩
      subst he
      exact startsWithDigit_of_readSigned64? hn hw
    rw [lexeme_of_integer hstart, integerToken]
    simp only [takeWhile_append_of_stops hw hk, hn]
  | word hc hw => rw [lexeme_of_isWordStart hc, takeWhile_append_of_stops hw hk]

theorem leads_of_integerToken (hc : c.isDigit = true ∨ c = '-')
    (h : integerToken position c cs = .ok (k, taken)) : Leads c cs k taken := by
  unfold integerToken at h
  dsimp only at h
  split at h
  · next n hn =>
    cases h
    exact ⟨_, _, List.takeWhile_append_dropWhile.symm, rfl,
      .integer hc (List.all_eq_true.mp List.all_takeWhile) hn, stops_dropWhile _ cs⟩
  · cases h

theorem leads_of_relation {fault : Fault} (hs : Spells [c, '='] k) (hk : ∀ rest, k.EndsAt rest)
    {m : Token} (h : (if cs.head? = some '=' then .ok (k, 1) else .error ⟨position, fault⟩) =
      (.ok (m, taken) : Except Problem (Token × Nat))) : Leads c cs m taken := by
  split at h
  · next hh =>
    obtain ⟨rest, rfl⟩ := List.head?_eq_some_iff.mp hh
    cases h
    exact ⟨['='], rest, rfl, rfl, hs, hk rest⟩
  · cases h

theorem leads_of_quote (hc : c = '"' ∨ c = '\'') (h : lexeme position c cs = .ok (k, taken)) :
    Leads c cs k taken := by
  rw [lexeme_of_quote hc] at h
  obtain ⟨r, hr, he⟩ := ok_of_map h
  obtain ⟨inside, rest, rfl, hn, hv⟩ := quotes_of_quotedText hr
  cases he
  exact ⟨inside ++ [c], rest, by simp, by simp [hn], .text hc hv, fun _ _ => rfl⟩

theorem leads_of_mem_marks (hc : c ∈ marks) (h : lexeme position c cs = .ok (k, taken)) :
    Leads c cs k taken := by
  have single : ∀ {m : Token}, lexeme position c cs = .ok (m, 0) → Spells [c] m → m.EndsAt cs →
      Leads c cs k taken := by
    intro m hm hs he
    cases hm.symm.trans h
    exact ⟨[], cs, rfl, rfl, hs, he⟩
  simp only [marks, List.mem_cons, List.not_mem_nil, or_false] at hc
  rcases hc with rfl | rfl | rfl | rfl | rfl | rfl | rfl | rfl | rfl | rfl | hc
  · exact single rfl (.mark rfl) fun _ _ => rfl
  · exact single rfl (.mark rfl) fun _ _ => rfl
  · exact single rfl .comma fun _ _ => rfl
  iterate 5 exact single rfl (.mark rfl) fun _ _ => rfl
  · exact leads_of_relation .equal (fun _ _ _ => rfl) h
  · exact leads_of_relation .notEqual (fun _ _ _ => rfl) h
  · exact leads_of_quote hc h

/-- What is taken at the head of a text is a spelling, and its token ends behind it. -/
theorem leads_of_lexeme (h : lexeme position c cs = .ok (k, taken)) : Leads c cs k taken := by
  by_cases hm : c ∈ marks
  · exact leads_of_mem_marks hm h
  · rw [lexeme_of_notMem_marks hm] at h
    split at h
    · next hc => exact leads_of_integerToken (.inr hc.1) h
    split at h
    · next hc => exact leads_of_integerToken (.inl hc) h
    split at h
    · next hc =>
      cases h
      exact ⟨_, _, List.takeWhile_append_dropWhile.symm, rfl,
        .word hc (List.all_eq_true.mp List.all_takeWhile), stops_dropWhile _ cs⟩
    · cases h

end Lexeme

theorem isBlank_of_isWordChar {c : Char} (hc : isWordChar c = true) : isBlank c = false := by
  simp only [isWordChar, Char.isAlphanum, Bool.or_eq_true, beq_iff_eq] at hc
  apply isBlank_of_toNat
  rcases hc with ((hc | hc) | rfl) | rfl
  · have := toNat_of_isWordStart (c := c) (by simp [isWordStart, hc])
    omega
  · have := toNat_of_isDigit hc
    omega
  · decide
  · decide

theorem isWordChar_of_isWordStart {c : Char} (hc : isWordStart c = true) : isWordChar c = true := by
  simp only [isWordStart, Bool.or_eq_true] at hc
  rcases hc with hc | hc <;> simp [isWordChar, Char.isAlphanum, hc]

theorem Token.goesOnWith_of_isBlank {c : Char} (hc : isBlank c = true) (k : Token) :
    k.goesOnWith c = false := by
  have hword : ¬ isWordChar c = true := fun h => by simp [isBlank_of_isWordChar h] at hc
  cases k with
  | word name => exact Bool.eq_false_iff.mpr hword
  | integer n => exact Bool.eq_false_iff.mpr fun h => hword (isWordChar_of_isDigit h)
  | _ => rfl

namespace Spells

variable {w : List Char} {k : Token}

theorem ne_finish (h : Spells w k) : k ≠ .finish := by
  rintro rfl
  cases h with
  | mark hc => unfold mark? at hc; split at hc <;> cases hc

theorem exists_cons (h : Spells w k) : ∃ c cs, w = c :: cs ∧ isBlank c = false := by
  cases h with
  | mark hc => exact ⟨_, _, rfl, by unfold mark? at hc; split at hc <;> cases hc <;> rfl⟩
  | text hq => exact ⟨_, _, rfl, by rcases hq with rfl | rfl <;> rfl⟩
  | integer hc =>
    refine ⟨_, _, rfl, ?_⟩
    rcases hc with hc | rfl
    · exact isBlank_of_isWordChar (isWordChar_of_isDigit hc)
    · rfl
  | word hc => exact ⟨_, _, rfl, isBlank_of_isWordChar (isWordChar_of_isWordStart hc)⟩
  | _ => exact ⟨_, _, rfl, rfl⟩

theorem isBlank_getLast (h : Spells w k) : ∀ c ∈ w.getLast?, isBlank c = false := by
  intro c hc
  obtain ⟨d, cs, rfl, hd⟩ := h.exists_cons
  have inside : (∀ e ∈ cs, isBlank e = false) → isBlank c = false := by
    intro hcs
    rcases List.mem_cons.mp (List.mem_of_getLast? hc) with rfl | hm
    · exact hd
    · exact hcs c hm
  cases h with
  | text hq =>
    rw [← List.cons_append, List.getLast?_concat] at hc
    cases hc
    exact hd
  | integer _ hw => exact inside fun e he => isBlank_of_isWordChar (isWordChar_of_isDigit (hw e he))
  | word _ hw => exact inside fun e he => isBlank_of_isWordChar (hw e he)
  | equal => exact inside (List.forall_mem_singleton.mpr rfl)
  | notEqual => exact inside (List.forall_mem_singleton.mpr rfl)
  | _ => exact inside (List.forall_mem_nil _)

end Spells

end FieldPatch.Selector
