import FieldPatch.Proofs.Selector.Sited

/-! The language of selectors: the texts that the parser accepts are those of the grammar, and
what it makes of them is what the grammar says. -/

namespace FieldPatch.Selector

/-- The text is cut into these tokens, behind which it ends. -/
def Lexes (s : String) (ks : List Token) : Prop :=
  ∃ placed, tokens s = .ok placed ∧ bare placed = ks ++ [.finish]

theorem Lexes.unique {s : String} {ks ks' : List Token} (h : Lexes s ks) (h' : Lexes s ks') :
    ks = ks' := by
  obtain ⟨placed, ht, hb⟩ := h
  obtain ⟨placed', ht', hb'⟩ := h'
  cases ht.symm.trans ht'
  exact List.append_cancel_right (hb.symm.trans hb')

theorem sited_tokens (s : String) : Sited s.length (fun ts => UpTo s.length ts ∧
    ∃ ks, bare ts = ks ++ [.finish] ∧ ∀ k ∈ ks, k.WellFormed) (tokens s) :=
  sited_tokensFrom 0 s.toList (Nat.le_of_eq (by rw [Nat.zero_add, String.length_toList]))

theorem Lexes.wellFormed {s : String} {ks : List Token} (h : Lexes s ks) :
    ∀ k ∈ ks, k.WellFormed := by
  obtain ⟨placed, ht, hb⟩ := h
  have hs := sited_tokens s
  rw [ht] at hs
  obtain ⟨-, ks', hks, hall⟩ := hs
  rwa [List.append_cancel_right (hb.symm.trans hks)]

theorem parse_of_lexes {s : String} {d : SelectorForm} (h : Lexes s d.tokens) :
    parse s = .ok ⟨s, d.meaning⟩ := by
  obtain ⟨placed, ht, hb⟩ := h
  simp only [parse, ht, ok_bind, pipeline_complete hb]

/-- A list that ends in the only `.finish` it has is parted before a `.finish` in one way. -/
theorem eq_singleton_of_append_finish {ks us vs : List Token} (hks : .finish ∉ ks)
    (hus : .finish ∉ us) (hvs : vs.head?.getD .finish = .finish)
    (h : ks ++ [.finish] = us ++ vs) : vs = [.finish] := by
  rcases List.eq_nil_or_concat vs with rfl | ⟨ws, k, rfl⟩
  · have hmem : Token.finish ∈ us ++ [] := h ▸ List.mem_append_right ks (List.mem_singleton_self _)
    exact absurd (by simpa using hmem) hus
  · rw [List.concat_eq_append, ← List.append_assoc] at h
    obtain ⟨rfl, hk⟩ := List.append_inj' h rfl
    cases hk
    cases ws with
    | nil => rfl
    | cons w ws =>
      have hw : w = .finish := hvs
      exact absurd (by simp [hw]) hks

theorem parse_sound {s : String} {e : Expression} (h : parse s = .ok e) :
    ∃ d : SelectorForm, Lexes s d.tokens ∧ e = ⟨s, d.meaning⟩ := by
  unfold parse at h
  split at h
  · next steps hsteps =>
    cases h
    obtain ⟨placed, ht, hp⟩ := ok_of_bind hsteps
    obtain ⟨d, rest, hd, hcur, rfl⟩ := pipeline_sound hp
    have hs := sited_tokens s
    rw [ht] at hs
    obtain ⟨-, ks, hks, hall⟩ := hs
    rw [current_eq_head?] at hcur
    have hfinish : .finish ∉ ks := fun hk => hall _ hk
    have hrest := eq_singleton_of_append_finish hfinish d.finish_notMem hcur (hks.symm.trans hd)
    exact ⟨d, ⟨placed, ht, hrest ▸ hd⟩, rfl⟩
  · cases h

theorem parse_error_sited {s : String} {err : Error} (h : parse s = .error err) :
    ∃ position fault, position ≤ s.length ∧ err = .badSelector s position fault := by
  have hsited : Sited s.length (fun _ => True) (tokens s >>= pipeline) :=
    (sited_tokens s).bind fun _ hts => sited_pipeline hts.1
  unfold parse at h
  split at h
  · cases h
  · next problem hp =>
    cases h
    rw [hp] at hsited
    exact ⟨problem.position, problem.fault, hsited, rfl⟩

/-- A text is accepted if and only if the grammar derives its tokens. There is one derivation
then, and it determines what the text is read as. A text that is not accepted is refused with an
error that carries it, at a position within it or at its end. -/
theorem parse_exactly_grammar (s : String) :
    (∀ e, parse s = .ok e ↔ ∃ d : SelectorForm, Lexes s d.tokens ∧ e = ⟨s, d.meaning⟩) ∧
    (∀ d d' : SelectorForm, Lexes s d.tokens → Lexes s d'.tokens → d = d') ∧
    ((∀ d : SelectorForm, ¬ Lexes s d.tokens) →
      ∃ position fault, position ≤ s.length ∧ parse s = .error (.badSelector s position fault)) := by
  refine ⟨fun e => ⟨parse_sound, ?_⟩, fun d d' h h' => ?_, fun hnone => ?_⟩
  · rintro ⟨d, hd, rfl⟩
    exact parse_of_lexes hd
  · exact SelectorForm.tokens_inj (h.unique h')
  · cases h : parse s with
    | ok e =>
      obtain ⟨d, hd, -⟩ := parse_sound h
      exact absurd hd (hnone d)
    | error err =>
      obtain ⟨position, fault, hp, rfl⟩ := parse_error_sited h
      exact ⟨position, fault, hp, rfl⟩

end FieldPatch.Selector
