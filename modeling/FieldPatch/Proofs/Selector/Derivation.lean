import FieldPatch.Proofs.Except
import FieldPatch.Proofs.Selector.Grammar
import FieldPatch.Selector.Parser

/-! The parser against the grammar: what it reads is derived by a form of the grammar, and each
form is read as what it stands for. Both are shown part by part, for the tokens of the part and
whatever stands behind them. -/

namespace FieldPatch.Selector

/-- Tokens without their positions. -/
def bare (ts : List Placed) : List Token := ts.map Placed.token

theorem bare_cons (t : Placed) (ts : List Placed) : bare (t :: ts) = t.token :: bare ts := rfl

theorem exists_of_bare_cons {ts : List Placed} {k : Token} {ks : List Token}
    (h : bare ts = k :: ks) : ∃ p rest, ts = ⟨p, k⟩ :: rest ∧ bare rest = ks := by
  obtain ⟨t, rest, rfl, rfl, rfl⟩ := List.map_eq_cons_iff.mp h
  exact ⟨t.position, rest, rfl, rfl⟩

theorem current_of_bare {ts : List Placed} {k : Token} {ks : List Token} (h : bare ts = k :: ks) :
    current ts = k := by
  obtain ⟨p, rest, rfl, -⟩ := exists_of_bare_cons h
  rfl

theorem exists_of_current {ts : List Placed} {k : Token} (h : current ts = k) (hk : k ≠ .finish) :
    ∃ p rest, ts = ⟨p, k⟩ :: rest := by
  cases ts with
  | nil => exact absurd h.symm hk
  | cons t rest => exact ⟨t.position, rest, by rw [← h]; rfl⟩

theorem current_eq_head? (ts : List Placed) : current ts = (bare ts).head?.getD .finish := by
  cases ts <;> rfl

theorem current_of_endsPath {ts : List Placed} (h : endsPath (bare ts)) :
    current ts ≠ .dot ∧ current ts ≠ .openBracket ∧ ∀ name, current ts ≠ .word name := by
  cases ts with
  | nil => simp [current]
  | cons t rest => simpa [endsPath, bare_cons, current] using h

section

variable {ts rest : List Placed}

theorem expect_sound {wanted : Token} (h : expect wanted ts = .ok rest) :
    bare ts = wanted :: bare rest := by
  unfold expect at h
  split at h
  · next t us =>
    split at h
    · next hw =>
      cases h
      rw [bare_cons, hw]
    · cases h
  · cases h

theorem expect_complete {wanted : Token} {ks : List Token} (h : bare ts = wanted :: ks) :
    ∃ rest, expect wanted ts = .ok rest ∧ bare rest = ks := by
  obtain ⟨p, rest, rfl, hr⟩ := exists_of_bare_cons h
  exact ⟨rest, by simp [expect], hr⟩

theorem optionalInteger_sound (ts : List Placed) :
    bare ts = BracketForm.bound (optionalInteger ts).1 ++ bare (optionalInteger ts).2 := by
  unfold optionalInteger
  split <;> simp [BracketForm.bound, bare]

theorem optionalInteger_complete {n : Option Int} {ks : List Token}
    (h : bare ts = BracketForm.bound n ++ .closeBracket :: ks) :
    (optionalInteger ts).1 = n ∧ bare (optionalInteger ts).2 = .closeBracket :: ks := by
  cases n with
  | none =>
    obtain ⟨p, rest, rfl, hr⟩ := exists_of_bare_cons h
    exact ⟨rfl, by rw [← hr]; rfl⟩
  | some m =>
    obtain ⟨p, rest, rfl, hr⟩ := exists_of_bare_cons h
    exact ⟨rfl, hr⟩

theorem bracket_sound {c : Component} (h : bracket ts = .ok (c, rest)) :
    ∃ b : BracketForm, bare ts = b.inside ++ .closeBracket :: bare rest ∧ b.component = c := by
  unfold bracket at h
  split at h
  · cases h
    exact ⟨.empty, rfl, rfl⟩
  · next p name single us =>
    obtain ⟨rest', he, hr⟩ := ok_of_bind h
    cases hr
    exact ⟨.text name single, by rw [bare_cons, expect_sound he]; rfl, rfl⟩
  · next p us =>
    obtain ⟨rest', he, hr⟩ := ok_of_bind h
    cases hr
    refine ⟨.slice none (optionalInteger us).1, ?_, rfl⟩
    rw [bare_cons, optionalInteger_sound us, expect_sound he]
    simp [BracketForm.inside, BracketForm.bound]
  · next p n q us =>
    obtain ⟨rest', he, hr⟩ := ok_of_bind h
    cases hr
    refine ⟨.slice (some n) (optionalInteger us).1, ?_, rfl⟩
    rw [bare_cons, bare_cons, optionalInteger_sound us, expect_sound he]
    simp [BracketForm.inside, BracketForm.bound]
  · next p n us _ =>
    obtain ⟨rest', he, hr⟩ := ok_of_bind h
    cases hr
    exact ⟨.integer n, by rw [bare_cons, expect_sound he]; rfl, rfl⟩
  · cases h

theorem bracket_complete {b : BracketForm} {ks : List Token}
    (h : bare ts = b.inside ++ .closeBracket :: ks) :
    ∃ rest, bracket ts = .ok (b.component, rest) ∧ bare rest = ks := by
  cases b with
  | empty =>
    obtain ⟨p, rest, rfl, hr⟩ := exists_of_bare_cons h
    exact ⟨rest, rfl, hr⟩
  | text name single =>
    obtain ⟨p, us, rfl, hu⟩ := exists_of_bare_cons h
    obtain ⟨rest, he, hr⟩ := expect_complete hu
    exact ⟨rest, by simp only [bracket, he]; rfl, hr⟩
  | integer n =>
    obtain ⟨p, us, rfl, hu⟩ := exists_of_bare_cons h
    obtain ⟨q, vs, rfl, hv⟩ := exists_of_bare_cons hu
    exact ⟨vs, rfl, hv⟩
  | slice first last =>
    cases first with
    | none =>
      obtain ⟨p, us, rfl, hu⟩ := exists_of_bare_cons h
      obtain ⟨hl, hv⟩ := optionalInteger_complete hu
      obtain ⟨rest, he, hr⟩ := expect_complete hv
      exact ⟨rest, by simp only [bracket, he, hl]; rfl, hr⟩
    | some n =>
      obtain ⟨p, us, rfl, hu⟩ := exists_of_bare_cons h
      obtain ⟨q, vs, rfl, hv⟩ := exists_of_bare_cons hu
      obtain ⟨hl, hw⟩ := optionalInteger_complete hv
      obtain ⟨rest, he, hr⟩ := expect_complete hw
      exact ⟨rest, by simp only [bracket, he, hl]; rfl, hr⟩

theorem components_cons_field (p q : Nat) (name : String) (us : List Placed) :
    components (⟨p, .dot⟩ :: ⟨q, .word name⟩ :: us) =
      components us >>= fun r => .ok (.field name :: r.1, r.2) := by
  rw [components]
  rfl

theorem components_cons_bracket {c : Component} {us vs : List Placed} (hb : bracket us = .ok (c, vs))
    (p : Nat) :
    components (⟨p, .openBracket⟩ :: us) = components vs >>= fun r => .ok (c :: r.1, r.2) := by
  rw [components]
  split
  · next e he => rw [hb] at he; cases he
  · next c' vs' he => rw [hb] at he; cases he; rfl

theorem components_cons_dotted {c : Component} {us vs : List Placed}
    (hb : bracket us = .ok (c, vs)) (p q : Nat) :
    components (⟨p, .dot⟩ :: ⟨q, .openBracket⟩ :: us) =
      components vs >>= fun r => .ok (c :: r.1, r.2) := by
  rw [components]
  split
  · next e he => rw [hb] at he; cases he
  · next c' vs' he => rw [hb] at he; cases he; rfl

/-- The components that are read end where a path ends, up to a word. -/
theorem components_sound {p : Path} (h : components ts = .ok (p, rest)) :
    (∃ cs : List ComponentForm, bare ts = cs.flatMap ComponentForm.tokens ++ bare rest ∧
      cs.map ComponentForm.component = p) ∧
    current rest ≠ .dot ∧ current rest ≠ .openBracket := by
  fun_induction components ts generalizing p rest with
  | case1 i j name us ih =>
    obtain ⟨⟨q, vs⟩, hq, he⟩ := ok_of_bind h
    cases he
    obtain ⟨⟨cs, hcs, rfl⟩, hrest⟩ := ih hq
    exact ⟨⟨.field name :: cs, by simp [bare_cons, hcs, ComponentForm.tokens], rfl⟩, hrest⟩
  | case2 => cases h
  | case3 i j us c vs hb _ ih =>
    obtain ⟨⟨q, ws⟩, hq, he⟩ := ok_of_bind h
    cases he
    obtain ⟨⟨cs, hcs, rfl⟩, hrest⟩ := ih hq
    obtain ⟨b, hin, rfl⟩ := bracket_sound hb
    refine ⟨⟨.bracket true b :: cs, ?_, rfl⟩, hrest⟩
    simp [bare_cons, hin, hcs, ComponentForm.tokens, BracketForm.tokens]
  | case4 => cases h
  | case5 => cases h
  | case6 i us c vs hb _ ih =>
    obtain ⟨⟨q, ws⟩, hq, he⟩ := ok_of_bind h
    cases he
    obtain ⟨⟨cs, hcs, rfl⟩, hrest⟩ := ih hq
    obtain ⟨b, hin, rfl⟩ := bracket_sound hb
    refine ⟨⟨.bracket false b :: cs, ?_, rfl⟩, hrest⟩
    simp [bare_cons, hin, hcs, ComponentForm.tokens, BracketForm.tokens]
  | case7 us _ _ hdot hopen =>
    cases h
    refine ⟨⟨[], rfl, rfl⟩, ?_, ?_⟩
    · intro hc
      obtain ⟨i, vs, hu⟩ := exists_of_current hc (by decide)
      exact hdot i vs hu
    · intro hc
      obtain ⟨i, vs, hu⟩ := exists_of_current hc (by decide)
      exact hopen i vs hu

theorem components_of_endsPath (h : endsPath (bare ts)) : components ts = .ok ([], ts) := by
  obtain ⟨hdot, hopen, -⟩ := h
  rw [components.eq_def]
  split <;> simp_all [bare_cons]

theorem components_complete {cs : List ComponentForm} {ks : List Token} (hk : endsPath ks)
    (h : bare ts = cs.flatMap ComponentForm.tokens ++ ks) :
    ∃ rest, components ts = .ok (cs.map ComponentForm.component, rest) ∧ bare rest = ks := by
  induction cs generalizing ts with
  | nil =>
    have hts : bare ts = ks := h
    exact ⟨ts, components_of_endsPath (hts ▸ hk), hts⟩
  | cons c cs ih =>
    rw [List.flatMap_cons, List.append_assoc] at h
    cases c with
    | field name =>
      obtain ⟨p, us, rfl, hu⟩ := exists_of_bare_cons h
      obtain ⟨q, vs, rfl, hv⟩ := exists_of_bare_cons hu
      obtain ⟨rest, hc, hr⟩ := ih hv
      exact ⟨rest, by rw [components_cons_field, hc]; rfl, hr⟩
    | bracket dotted b =>
      have inside : ∀ {us}, bare us = b.inside ++ .closeBracket :: (cs.flatMap ComponentForm.tokens ++ ks) →
          ∃ vs rest, bracket us = .ok (b.component, vs) ∧
            components vs = .ok (cs.map ComponentForm.component, rest) ∧ bare rest = ks := by
        intro us hu
        obtain ⟨vs, hb, hv⟩ := bracket_complete hu
        obtain ⟨rest, hc, hr⟩ := ih hv
        exact ⟨vs, rest, hb, hc, hr⟩
      cases dotted with
      | false =>
        obtain ⟨p, us, rfl, hu⟩ := exists_of_bare_cons h
        obtain ⟨vs, rest, hb, hc, hr⟩ := inside (by simpa using hu)
        exact ⟨rest, by rw [components_cons_bracket hb, hc]; rfl, hr⟩
      | true =>
        obtain ⟨p, us, rfl, hu⟩ := exists_of_bare_cons h
        obtain ⟨q, vs, rfl, hv⟩ := exists_of_bare_cons hu
        obtain ⟨ws, rest, hb, hc, hr⟩ := inside (by simpa using hv)
        exact ⟨rest, by rw [components_cons_dotted hb, hc]; rfl, hr⟩

theorem path_sound {p : Path} (h : path ts = .ok (p, rest)) :
    ∃ f : PathForm, bare ts = f.tokens ++ bare rest ∧ f.path = p := by
  have go_on : components ts = .ok (p, rest) → current ts = .dot ∨ current ts = .openBracket →
      ∃ f : PathForm, bare ts = f.tokens ++ bare rest ∧ f.path = p := by
    intro hc hcur
    obtain ⟨⟨cs, hcs, rfl⟩, hdot, hopen⟩ := components_sound hc
    cases cs with
    | nil =>
      have he : bare ts = bare rest := hcs
      rw [current_eq_head?, he, ← current_eq_head?] at hcur
      rcases hcur with hcur | hcur
      · exact absurd hcur hdot
      · exact absurd hcur hopen
    | cons c cs => exact ⟨.components c cs, hcs, rfl⟩
  unfold path at h
  split at h
  · split at h
    · exact go_on h (.inl rfl)
    · exact go_on h (.inl rfl)
    · cases h
      exact ⟨.dot, rfl, rfl⟩
  · exact go_on h (.inr rfl)
  · cases h

theorem path_complete {f : PathForm} {ks : List Token} (hk : endsPath ks)
    (h : bare ts = f.tokens ++ ks) : ∃ rest, path ts = .ok (f.path, rest) ∧ bare rest = ks := by
  cases f with
  | dot =>
    obtain ⟨p, rest, rfl, hr⟩ := exists_of_bare_cons h
    have hrest : bare rest = ks := hr
    obtain ⟨-, hopen, hword⟩ := current_of_endsPath (hrest ▸ hk)
    exact ⟨rest, by simp only [path]; rfl, hrest⟩
  | components first more =>
    obtain ⟨rest, hc, hr⟩ := components_complete hk h
    have hp : path ts = components ts := by
      rcases first with name | ⟨_ | _, b⟩
      · obtain ⟨p, us, rfl, hu⟩ := exists_of_bare_cons h
        obtain ⟨q, vs, rfl, -⟩ := exists_of_bare_cons hu
        rfl
      · obtain ⟨p, us, rfl, -⟩ := exists_of_bare_cons h
        rfl
      · obtain ⟨p, us, rfl, hu⟩ := exists_of_bare_cons h
        obtain ⟨q, vs, rfl, -⟩ := exists_of_bare_cons hu
        rfl
    exact ⟨rest, hp.trans hc, hr⟩

theorem literal?_sound {l : Literal} (h : literal? ts = some (l, rest)) :
    ∃ f : LiteralForm, bare ts = f.token :: bare rest ∧ f.literal = l := by
  unfold literal? at h
  split at h
  · next p value single us =>
    cases h
    exact ⟨.text value single, rfl, rfl⟩
  · next p n us =>
    cases h
    exact ⟨.integer n, rfl, rfl⟩
  · cases h

theorem literal?_complete {f : LiteralForm} {ks : List Token} (h : bare ts = f.token :: ks) :
    ∃ rest, literal? ts = some (f.literal, rest) ∧ bare rest = ks := by
  obtain ⟨p, rest, rfl, hr⟩ := exists_of_bare_cons h
  exact ⟨rest, by cases f <;> rfl, hr⟩

theorem relation?_eq_some_iff {k : Token} {r : Relation} : relation? k = some r ↔ k = r.token := by
  cases k <;> cases r <;> simp [relation?, Relation.token]

/-- A comparison among the arguments of a call. -/
theorem argument_sound {c : Comparison} (h : argument ts = .ok (.comparison c, rest)) :
    ∃ (left : PathForm) (relation : Relation) (right : LiteralForm),
      bare ts = left.tokens ++ relation.token :: right.token :: bare rest ∧
        c = ⟨left.path, relation, right.literal⟩ := by
  unfold argument at h
  split at h
  · cases h
  · obtain ⟨⟨p, us⟩, hp, h⟩ := ok_of_bind h
    obtain ⟨left, hleft, rfl⟩ := path_sound hp
    dsimp only at h
    split at h
    · cases h
    · next relation hrel =>
      have hcur : current us = relation.token := relation?_eq_some_iff.mp hrel
      obtain ⟨q, vs, rfl⟩ := exists_of_current hcur (by cases relation <;> simp [Relation.token])
      split at h
      · cases h
      · next l ws hl =>
        cases h
        obtain ⟨right, hright, rfl⟩ := literal?_sound hl
        refine ⟨left, relation, right, ?_, rfl⟩
        rw [hleft, bare_cons]
        exact congrArg (left.tokens ++ relation.token :: ·) hright

theorem argument_complete {left : PathForm} {relation : Relation} {right : LiteralForm}
    {ks : List Token} (h : bare ts = left.tokens ++ relation.token :: right.token :: ks) :
    ∃ rest, argument ts = .ok (.comparison ⟨left.path, relation, right.literal⟩, rest) ∧
      bare rest = ks := by
  have hlit : literal? ts = none := by
    obtain ⟨k, us, hk, ho⟩ := left.exists_head_tokens
    rw [hk] at h
    obtain ⟨p, vs, rfl, -⟩ := exists_of_bare_cons h
    rcases ho with rfl | rfl <;> rfl
  obtain ⟨us, hp, hu⟩ := path_complete (endsPath_relation relation _) h
  obtain ⟨p, vs, rfl, hv⟩ := exists_of_bare_cons hu
  obtain ⟨rest, hl, hr⟩ := literal?_complete hv
  have hrel : relation? relation.token = some relation := relation?_eq_some_iff.mpr rfl
  refine ⟨rest, ?_, hr⟩
  simp only [argument, hlit, hp, ok_bind, current, hrel, List.tail_cons, hl]
  rfl

theorem moreArguments_nil {fuel : Nat} (h : moreArguments fuel ts = .ok ([], rest)) : rest = ts := by
  unfold moreArguments at h
  split at h
  · obtain ⟨⟨a, us⟩, -, h⟩ := ok_of_bind h
    obtain ⟨⟨as, vs⟩, -, h⟩ := ok_of_bind h
    cases h
  · cases h
    rfl

theorem arguments_sound {c : Comparison} (h : arguments ts = .ok ([.comparison c], rest)) :
    argument ts = .ok (.comparison c, rest) := by
  unfold arguments at h
  split at h
  · cases h
  · obtain ⟨⟨a, us⟩, ha, h⟩ := ok_of_bind h
    obtain ⟨⟨as, vs⟩, has, h⟩ := ok_of_bind h
    cases h
    rw [moreArguments_nil has]
    exact ha

theorem arguments_complete {a : Argument} {ks : List Token} (h : argument ts = .ok (a, rest))
    (hts : current ts ≠ .closeParen) (hrest : bare rest = .closeParen :: ks) :
    arguments ts = .ok ([a], rest) := by
  obtain ⟨p, us, rfl, -⟩ := exists_of_bare_cons hrest
  simp only [arguments, hts, if_false, h]
  rfl

theorem call_sound {position : Nat} {name : String} {s : Step}
    (h : call position name ts = .ok (s, rest)) :
    ∃ f : StepForm, .word name :: bare ts = f.tokens ++ bare rest ∧ f.step = s := by
  unfold call at h
  obtain ⟨us, hopen, h⟩ := ok_of_bind h
  obtain ⟨⟨args, vs⟩, hargs, h⟩ := ok_of_bind h
  obtain ⟨ws, hclose, h⟩ := ok_of_bind h
  dsimp only at h hclose
  split at h
  · cases h
  · next hname =>
    have hname : name = "select" := by simpa using hname
    dsimp only [bind, Except.bind, pure, Except.pure] at h
    split at h
    · next c =>
      cases h
      obtain ⟨left, relation, right, hc, rfl⟩ := argument_sound (arguments_sound hargs)
      refine ⟨.select left relation right, ?_, rfl⟩
      rw [hname, expect_sound hopen, hc, expect_sound hclose]
      simp [StepForm.tokens]
    · cases h

theorem call_complete {left : PathForm} {relation : Relation} {right : LiteralForm}
    {ks : List Token}
    (h : bare ts = .openParen :: left.tokens ++ [relation.token, right.token, .closeParen] ++ ks)
    (position : Nat) :
    ∃ rest, call position "select" ts =
      .ok (.select ⟨left.path, relation, right.literal⟩, rest) ∧ bare rest = ks := by
  have hb : bare ts = .openParen :: (left.tokens ++ relation.token :: right.token ::
      .closeParen :: ks) := by simpa using h
  obtain ⟨us, hopen, hu⟩ := expect_complete hb
  obtain ⟨vs, harg, hv⟩ := argument_complete hu
  obtain ⟨rest, hclose, hr⟩ := expect_complete hv
  have hcur : current us ≠ .closeParen := by
    obtain ⟨k, ws, hk, ho⟩ := left.exists_head_tokens
    rw [current_eq_head?, hu, hk]
    rcases ho with rfl | rfl <;> simp
  have hargs := arguments_complete harg hcur hv
  refine ⟨rest, ?_, hr⟩
  simp only [call, hopen, hargs, hclose, ok_bind]
  rfl

theorem step_sound {s : Step} (h : step ts = .ok (s, rest)) :
    ∃ f : StepForm, bare ts = f.tokens ++ bare rest ∧ f.step = s := by
  unfold step at h
  split at h
  · exact call_sound h
  · obtain ⟨⟨p, us⟩, hp, h⟩ := ok_of_bind h
    cases h
    obtain ⟨f, hf, rfl⟩ := path_sound hp
    exact ⟨.path f, hf, rfl⟩

theorem step_complete {f : StepForm} {ks : List Token} (hk : endsPath ks)
    (h : bare ts = f.tokens ++ ks) : ∃ rest, step ts = .ok (f.step, rest) ∧ bare rest = ks := by
  cases f with
  | path p =>
    obtain ⟨rest, hp, hr⟩ := path_complete hk h
    refine ⟨rest, ?_, hr⟩
    have hword : ∀ i name us, ts ≠ ⟨i, .word name⟩ :: us := by
      rintro i name us rfl
      obtain ⟨k, vs, hv, ho⟩ := p.exists_head_tokens
      simp only [StepForm.tokens, hv, bare_cons, List.cons_append, List.cons.injEq] at h
      rcases ho with rfl | rfl <;> simp at h
    unfold step
    split
    · next i name us => exact absurd rfl (hword i name us)
    · rw [hp]
      rfl
  | select left relation right =>
    obtain ⟨i, us, rfl, hu⟩ := exists_of_bare_cons h
    exact call_complete hu i

theorem moreSteps_sound {fuel : Nat} {ss : List Step} (h : moreSteps fuel ts = .ok (ss, rest)) :
    ∃ fs : List StepForm, bare ts = StepForm.moreTokens fs ++ bare rest ∧
      fs.map StepForm.step = ss := by
  induction fuel generalizing ts ss with
  | zero =>
    cases h
    exact ⟨[], rfl, rfl⟩
  | succ fuel ih =>
    unfold moreSteps at h
    split at h
    · next n p us hn =>
      obtain rfl : fuel = n := by simpa using hn
      obtain ⟨⟨s, vs⟩, hs, h⟩ := ok_of_bind h
      obtain ⟨⟨ss', ws⟩, hss, h⟩ := ok_of_bind h
      cases h
      obtain ⟨f, hf, rfl⟩ := step_sound hs
      obtain ⟨fs, hfs, rfl⟩ := ih hss
      refine ⟨f :: fs, ?_, rfl⟩
      rw [bare_cons, hf, hfs, StepForm.moreTokens_cons]
      simp
    · cases h
      exact ⟨[], rfl, rfl⟩

theorem moreSteps_complete {fuel : Nat} {fs : List StepForm}
    (h : bare ts = StepForm.moreTokens fs ++ [.finish]) (hfuel : fs.length ≤ fuel) :
    ∃ rest, moreSteps fuel ts = .ok (fs.map StepForm.step, rest) ∧ bare rest = [.finish] := by
  induction fs generalizing fuel ts with
  | nil =>
    obtain ⟨p, us, rfl, hu⟩ := exists_of_bare_cons h
    exact ⟨_, by cases fuel <;> rfl, h⟩
  | cons f fs ih =>
    obtain ⟨n, rfl⟩ : ∃ n, fuel = n + 1 := ⟨fuel - 1, by simp at hfuel; omega⟩
    rw [StepForm.moreTokens_cons, List.cons_append, List.append_assoc] at h
    obtain ⟨p, us, rfl, hu⟩ := exists_of_bare_cons h
    have hend : endsPath (StepForm.moreTokens fs ++ [.finish]) :=
      endsPath_moreTokens fs (by simp [endsPath])
    obtain ⟨vs, hs, hv⟩ := step_complete hend hu
    obtain ⟨rest, hss, hr⟩ := ih hv (by simpa using hfuel)
    refine ⟨rest, ?_, hr⟩
    simp only [moreSteps, hs, ok_bind, hss]
    rfl

/-- What the parser reads is derived by the grammar, up to the end of the text. -/
theorem pipeline_sound {ss : List Step} (h : pipeline ts = .ok ss) :
    ∃ (d : SelectorForm) (rest : List Placed), bare ts = d.tokens ++ bare rest ∧
      current rest = .finish ∧ d.meaning = ss := by
  unfold pipeline at h
  split at h
  · next hfinish =>
    cases h
    exact ⟨.empty, ts, rfl, hfinish, rfl⟩
  · obtain ⟨⟨s, us⟩, hs, h⟩ := ok_of_bind h
    obtain ⟨⟨ss', vs⟩, hss, h⟩ := ok_of_bind h
    dsimp only at h
    split at h
    · next hfinish =>
      cases h
      obtain ⟨f, hf, rfl⟩ := step_sound hs
      obtain ⟨fs, hfs, rfl⟩ := moreSteps_sound hss
      refine ⟨.steps f fs, vs, ?_, hfinish, rfl⟩
      simp [hf, hfs, SelectorForm.tokens]
    · cases h

theorem length_le_moreTokens (fs : List StepForm) : fs.length ≤ (StepForm.moreTokens fs).length := by
  induction fs with
  | nil => simp
  | cons f fs ih =>
    simp only [StepForm.moreTokens_cons, List.length_cons, List.length_append]
    omega

/-- What the grammar derives is read, and as what it stands for. -/
theorem pipeline_complete {d : SelectorForm} (h : bare ts = d.tokens ++ [.finish]) :
    pipeline ts = .ok d.meaning := by
  cases d with
  | empty =>
    have hcur : current ts = .finish := current_of_bare h
    simp only [pipeline, hcur, if_true]
    rfl
  | steps f fs =>
    rw [SelectorForm.tokens, List.append_assoc] at h
    have hcur : current ts ≠ .finish := by
      rw [current_eq_head?, h]
      cases f with
      | path p =>
        obtain ⟨k, us, hk, ho⟩ := p.exists_head_tokens
        rcases ho with rfl | rfl <;> simp [StepForm.tokens, hk]
      | select left relation right => simp [StepForm.tokens]
    have hend : endsPath (StepForm.moreTokens fs ++ [.finish]) :=
      endsPath_moreTokens fs (by simp [endsPath])
    obtain ⟨us, hs, hu⟩ := step_complete hend h
    have hfuel : fs.length ≤ us.length := by
      have hlen := congrArg List.length hu
      simp only [bare, List.length_map, List.length_append, List.length_cons, List.length_nil] at hlen
      have := length_le_moreTokens fs
      omega
    obtain ⟨vs, hss, hv⟩ := moreSteps_complete hu hfuel
    have hlast : current vs = .finish := current_of_bare hv
    simp only [pipeline, hcur, if_false, hs, ok_bind, hss, hlast, if_true]
    rfl

end

end FieldPatch.Selector
