import FieldPatch.Proofs.Source.Ending
import Mathlib

/-! Values are lexically scoped: what a source comes to depends on the names that occur free in
it, and on no other binding. -/

namespace FieldPatch

open Context (AgreeOn)

/-- Evaluation that cannot tell apart contexts which agree on the free names. -/
def Evaluator.Scoped (evaluate : Evaluator) : Prop :=
  ∀ (s : Source) (a b : Context), a.AgreeOn s.freeNames b → evaluate a s = evaluate b s

theorem evaluateAt_scoped (w : World) (depth : Nat) :
    Evaluator.Scoped (Source.evaluateAt w depth) := by
  intro s a b h
  -- with the bindings put in for the free names the contexts are one
  have ha := Source.evaluateAt_subst (Context.fills_bindings a) w depth s
  have hb := Source.evaluateAt_subst (Context.fills_bindings b) w depth s
  rw [ha, hb, Source.subst_congr s h.binding, h.withBindings []]

namespace Source

/-- Contexts that agree on the free names of a source, on the functions and on what surrounds
the evaluation give it the same value, or the same error, whether it is given up for its depth or
not. Nothing else that a caller or an earlier step has bound is seen. -/
theorem evaluate_eq_of_agreeOn {s : Source} {a b : Context} (h : a.AgreeOn s.freeNames b)
    (w : World) :
    s.evaluate w a = s.evaluate w b ∧ ∀ r, s.Ends w a r ↔ s.Ends w b r := by
  have hscoped : ∀ depth, evaluateAt w depth a s = evaluateAt w depth b s :=
    fun depth => evaluateAt_scoped w depth s a b h
  have hdepth : s.depthLimit a = s.depthLimit b := by
    simp only [depthLimit, depthIn, h.functions]
  refine ⟨by rw [evaluate, evaluate, hdepth, hscoped], fun r => ?_⟩
  rw [Ends, Ends]
  exact exists_congr fun depth => by rw [hscoped]

/-- A greeting: the step before it binds `name`, and `mark` is left to the context. -/
def greeting : Source :=
  .pipeline [
    (.literal "world", some "name"),
    (.template "hello $name$mark" [("name", .variable "name"), ("mark", .variable "mark")], none)]

/-- Nothing to run and nothing to read. -/
def bareWorld : World :=
  { files := [], directory := [], environment := [], perform := fun _ => ⟨.exited 0, [], []⟩ }

theorem evaluate_greeting_eq :
    greeting.freeNames = ["mark"] ∧
    greeting.evaluate bareWorld ((Context.root "/srv").withVariable "mark" "!") = .ok "hello world!" ∧
    greeting.evaluate bareWorld ((Context.root "/srv").withVariable "mark" "!") =
      greeting.evaluate bareWorld
        { Context.root "/srv" with bindings := [("name", "nobody"), ("mark", "!"), ("rest", "")] } := by
  have hagree : ((Context.root "/srv").withVariable "mark" "!").AgreeOn greeting.freeNames
      { Context.root "/srv" with bindings := [("name", "nobody"), ("mark", "!"), ("rest", "")] } :=
    ⟨rfl, rfl, rfl, rfl, rfl, rfl, by decide⟩
  exact ⟨by decide, by cbv, (evaluate_eq_of_agreeOn hagree bareWorld).1⟩

end Source

end FieldPatch
