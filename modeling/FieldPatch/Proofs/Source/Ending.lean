import FieldPatch.Proofs.Source.Layer

/-! What an evaluation comes to once it may go deep enough. More depth changes no result, so
that there is at most one, and texts in the place of variables change none either. -/

namespace FieldPatch

open Context (Fills)

namespace Evaluation

/-- Where `x` has a result, `y` has the same. -/
def Below {α : Type} (x y : Evaluation α) : Prop := ∀ r, x.run = some r → y.run = some r

theorem run_bind_eq_some_iff {α β : Type} {x : Evaluation α} {f : α → Evaluation β}
    {r : Except Error β} : (x >>= f).run = some r ↔
      (∃ v, x.run = some (.ok v) ∧ (f v).run = some r) ∨
      ∃ error, x.run = some (.error error) ∧ r = .error error := by
  rcases x with _ | error | v
  · exact ⟨nofun, by rintro (⟨v, h, -⟩ | ⟨error, h, -⟩) <;> cases h⟩
  · constructor
    · intro h
      exact .inr ⟨error, rfl, (Option.some.inj h).symm⟩
    · rintro (⟨v, h, -⟩ | ⟨other, h, rfl⟩)
      · cases h
      · cases h
        rfl
  · constructor
    · exact fun h => .inl ⟨v, rfl, h⟩
    · rintro (⟨other, h, hr⟩ | ⟨error, h, -⟩)
      · cases h
        exact hr
      · cases h

theorem ok_of_run_bind {α β : Type} {x : Evaluation α} {f : α → Evaluation β} {b : β}
    (h : (x >>= f).run = some (.ok b)) : ∃ v, x.run = some (.ok v) ∧ (f v).run = some (.ok b) := by
  rcases run_bind_eq_some_iff.mp h with hv | ⟨error, -, he⟩
  · exact hv
  · cases he

theorem eq_congruence : Congruence fun x y => x = y where
  of _ := rfl
  bind hx hf := by rw [hx, funext hf]

theorem below_congruence : Congruence Below where
  of _ _ h := h
  bind hx hf := by
    intro r hr
    rcases run_bind_eq_some_iff.mp hr with ⟨v, hv, hr⟩ | ⟨error, he, hr⟩
    · exact run_bind_eq_some_iff.mpr (.inl ⟨v, hx _ hv, hf v r hr⟩)
    · exact run_bind_eq_some_iff.mpr (.inr ⟨error, hx _ he, hr⟩)

end Evaluation

namespace Source

variable {w : World} {a b ctx : Context} {s t : Source} {σ : String → Option String}

theorem evaluateAt_alike (w : World) (depth : Nat) (functions : List Function) (s : Source) :
    Alike (fun x y => x = y) (evaluateAt w depth) (evaluateAt w depth) functions s := by
  induction depth generalizing s functions with
  | zero => exact fun σ a b _ _ => rfl
  | succ depth ih =>
    intro σ a b hf hab
    exact evaluateWith_alike Evaluation.eq_congruence hf hab (fun c _ => ih functions c)
      (fun _ _ _ _ _ _ => rfl) w

/-- Texts in the place of free names are as good as bindings, at any depth. -/
theorem evaluateAt_subst (h : Fills σ a b) (w : World) (depth : Nat) (s : Source) :
    evaluateAt w depth a s = evaluateAt w depth b (s.subst σ) :=
  evaluateAt_alike w depth a.functions s σ a b rfl h

theorem evaluateAt_below (w : World) {depth more : Nat} (hle : depth ≤ more)
    (functions : List Function) (s : Source) :
    Alike Evaluation.Below (evaluateAt w depth) (evaluateAt w more) functions s := by
  induction depth generalizing s functions more with
  | zero => exact fun σ a b _ _ r hr => nomatch hr
  | succ depth ih =>
    intro σ a b hf hab
    obtain ⟨deeper, rfl⟩ : ∃ deeper, more = deeper + 1 := ⟨more - 1, by omega⟩
    have hle' : depth ≤ deeper := by omega
    refine evaluateWith_alike Evaluation.below_congruence hf hab (fun c _ => ih hle' functions c) ?_ w
    -- in a body nothing is substituted
    intro name arguments f _ _ bindings
    have hbody := ih hle' a.functions f.body _ { a with bindings } _ rfl (Fills.refl _)
    rwa [← evaluateAt_subst (Fills.refl _)] at hbody

theorem run_mono {depth more : Nat} (hle : depth ≤ more) {r : Except Error String}
    (h : (evaluateAt w depth ctx s).run = some r) : (evaluateAt w more ctx s).run = some r := by
  have hbelow := evaluateAt_below w hle ctx.functions s _ ctx ctx rfl (Fills.refl ctx)
  rw [← evaluateAt_subst (Fills.refl ctx)] at hbelow
  exact hbelow r h

/-- The source comes to `r`, at some depth. -/
def Ends (w : World) (ctx : Context) (s : Source) (r : Except Error String) : Prop :=
  ∃ depth, (evaluateAt w depth ctx s).run = some r

theorem Ends.unique {r r' : Except Error String} (h : s.Ends w ctx r) (h' : s.Ends w ctx r') :
    r = r' := by
  obtain ⟨depth, hr⟩ := h
  obtain ⟨depth', hr'⟩ := h'
  have hmax := run_mono (Nat.le_max_left depth depth') hr
  have hmax' := run_mono (Nat.le_max_right depth depth') hr'
  exact Option.some.inj (hmax.symm.trans hmax')

theorem evaluate_cases (w : World) (ctx : Context) (s : Source) :
    s.Ends w ctx (s.evaluate w ctx) ∨ s.evaluate w ctx = .error (.evaluation .nestedTooDeeply) := by
  unfold evaluate settle
  cases h : (evaluateAt w (s.depthLimit ctx) ctx s).run with
  | none => exact .inr rfl
  | some r => exact .inl ⟨_, h⟩

/-- Two sources, each in its context, come to the same, if they come to anything. Given up for
their depth they may be one by one. -/
structure SameResult (w : World) (a : Context) (s : Source) (b : Context) (t : Source) : Prop where
  ends : ∀ r, s.Ends w a r ↔ t.Ends w b r
  evaluate : s.evaluate w a = t.evaluate w b ∨
    s.evaluate w a = .error (.evaluation .nestedTooDeeply) ∨
    t.evaluate w b = .error (.evaluation .nestedTooDeeply)

theorem sameResult_of_ends (h : ∀ r, s.Ends w a r ↔ t.Ends w b r) : SameResult w a s b t := by
  refine ⟨h, ?_⟩
  rcases evaluate_cases w a s with hs | hs
  · rcases evaluate_cases w b t with ht | ht
    · exact .inl (((h _).mp hs).unique ht)
    · exact .inr (.inr ht)
  · exact .inr (.inl hs)

theorem sameResult_of_eventually (least i j : Nat)
    (h : ∀ depth ≥ least, evaluateAt w (depth + i) a s = evaluateAt w (depth + j) b t) :
    SameResult w a s b t := by
  -- a result stays one at any greater depth, so that both are looked at where they are the same
  refine sameResult_of_ends fun r => ⟨?_, ?_⟩
  · rintro ⟨depth, hr⟩
    have hdeep : depth ≤ max depth least + i := by omega
    refine ⟨max depth least + j, ?_⟩
    rw [← h _ (Nat.le_max_right depth least)]
    exact run_mono hdeep hr
  · rintro ⟨depth, hr⟩
    have hdeep : depth ≤ max depth least + j := by omega
    refine ⟨max depth least + i, ?_⟩
    rw [h _ (Nat.le_max_right depth least)]
    exact run_mono hdeep hr

end Source

end FieldPatch
