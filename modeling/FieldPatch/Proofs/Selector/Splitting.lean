import FieldPatch.Proofs.Selector.FirstMatch
import FieldPatch.Proofs.Selector.Unresolved

/-! Paths that are divided between steps. What is read does not depend on where a path is divided,
nor on the text of the selector, which only errors quote; and what a path without iteration leads
to can be read from on its own. -/

namespace FieldPatch

/-- The same error, quoting another selector. -/
def Error.requote (source : String) : Error → Error
  | .noMatch _ => .noMatch source
  | .evaluation (.notALocation _) => .evaluation (.notALocation source)
  | err => err

theorem Error.Stuck.requote_eq {err : Error} (h : err.Stuck) (source : String) :
    err.requote source = err := by
  cases h <;> rfl

theorem mapError_requote_bind {α β : Type} {r : Except Error α} (h : FailsOnly Error.Stuck r)
    (f : α → Except Error β) (source : String) :
    (r >>= f).mapError (Error.requote source) =
      r >>= fun a => (f a).mapError (Error.requote source) := by
  cases r with
  | error err => exact congrArg Except.error ((h err rfl).requote_eq source)
  | ok a => rfl

namespace Selector

variable {source source' : String}

theorem follow_append (next : Cursor → Outcome) (p q : Path) (c : Cursor) :
    follow source next (p ++ q) c = follow source (follow source next q) p c := by
  induction p generalizing c with
  | nil => rfl
  | cons k p ih =>
    have hf : follow source next (p ++ q) = follow source (follow source next q) p := funext ih
    cases k <;> simp only [List.cons_append, follow, hf]

theorem run_split (p q : Path) (after : List Step) (c : Cursor) :
    run source (.path (p ++ q) :: after) c = run source (.path p :: .path q :: after) c :=
  follow_append (run source after) p q c

theorem run_append_congr {steps steps' : List Step}
    (h : ∀ c, run source steps c = run source steps' c) (before : List Step) (c : Cursor) :
    run source (before ++ steps) c = run source (before ++ steps') c := by
  induction before generalizing c with
  | nil => exact h c
  | cons s before ih =>
    have hr : run source (before ++ steps) = run source (before ++ steps') := funext ih
    cases s <;> simp only [List.cons_append, run, hr]

section

variable {search search' next next' : Cursor → Outcome}

theorem firstThrough_requote
    (h : ∀ c, search' c = (search c).mapError (Error.requote source')) (cs : List Cursor) :
    firstThrough source' search' cs =
      (firstThrough source search cs).mapError (Error.requote source') := by
  induction cs with
  | nil => rfl
  | cons c cs ih =>
    unfold firstThrough
    rw [h c]
    cases search c with
    | error err => exact ih
    | ok found =>
      cases found with
      | none => exact ih
      | some d => rfl

theorem follow_requote (h : ∀ c, next' c = (next c).mapError (Error.requote source')) (p : Path)
    (c : Cursor) :
    follow source' next' p c = (follow source next p c).mapError (Error.requote source') := by
  induction p generalizing c with
  | nil => exact h c
  | cons k p ih =>
    have hstep : ∀ {r : Except Error Cursor}, FailsOnly Error.Stuck r →
        r >>= follow source' next' p =
          (r >>= follow source next p).mapError (Error.requote source') := by
      intro r hr
      rw [mapError_requote_bind hr]
      exact congrArg (r >>= ·) (funext ih)
    cases k with
    | field name => exact hstep (c.field_stuck name)
    | key name => exact hstep (c.field_stuck name)
    | index i => exact hstep (c.index_stuck i)
    | slice first last => exact hstep (c.slice_stuck first last)
    | each =>
      simp only [follow]
      rw [mapError_requote_bind c.elements_stuck]
      exact congrArg (c.elements >>= ·) (funext fun ds => firstThrough_requote ih ds)

theorem run_requote (source source' : String) (steps : List Step) (c : Cursor) :
    run source' steps c = (run source steps c).mapError (Error.requote source') := by
  induction steps generalizing c with
  | nil => rfl
  | cons s rest ih =>
    cases s with
    | path p => exact follow_requote ih p c
    | select condition =>
      -- errors inside a condition do not come out of it, so its text is the same
      simp only [run, holds_eq_keeps]
      split
      · exact ih c
      · rfl

end

theorem resolve_requote (source source' : String) (t : Tree) (steps : List Step) :
    resolve t ⟨source', steps⟩ = (resolve t ⟨source, steps⟩).mapError (Error.requote source') := by
  simp only [resolve, run_requote source source' steps]
  cases run source steps (.root t) with
  | error err => rfl
  | ok found => cases found <;> rfl

theorem evaluate_requote (source source' : String) (t : Tree) (steps : List Step) :
    evaluate t ⟨source', steps⟩ = (evaluate t ⟨source, steps⟩).mapError (Error.requote source') := by
  simp only [evaluate, resolve_requote source source']
  cases resolve t ⟨source, steps⟩ <;> rfl

theorem locate_requote (source source' : String) (t : Tree) (steps : List Step) :
    locate t ⟨source', steps⟩ = (locate t ⟨source, steps⟩).mapError (Error.requote source') := by
  simp only [locate, resolve_requote source source']
  cases resolve t ⟨source, steps⟩ with
  | error err => rfl
  | ok c =>
    obtain ⟨node, location⟩ := c
    cases location <;> rfl

theorem resolve_split (t : Tree) (before after : List Step) (p q : Path) :
    resolve t ⟨source, before ++ .path p :: .path q :: after⟩ =
      resolve t ⟨source, before ++ .path (p ++ q) :: after⟩ := by
  simp only [resolve, run_append_congr (run_split p q after) before]

theorem matchesOf_eq_flatMap (rest : Tree → List Tree) (p : Path) (t : Tree) :
    matchesOf rest p t = (matchesOf (fun u => [u]) p t).flatMap rest := by
  induction p generalizing t with
  | nil => exact (List.append_nil _).symm
  | cons k p ih =>
    simp only [matchesOf, List.flatMap_assoc]
    exact congrArg (fun f => (k.matchesAt t).flatMap f) (funext ih)

/-- All components but iteration lead to one node at most. -/
theorem exists_matchesAt_eq {k : Component} (h : k ≠ .each) (t : Tree) :
    ∃ found : Option Tree, k.matchesAt t = found.toList := by
  cases k with
  | each => exact absurd rfl h
  | field name =>
    cases t with
    | map es => exact ⟨Entries.get? name es, rfl⟩
    | _ => exact ⟨none, rfl⟩
  | key name =>
    cases t with
    | map es => exact ⟨Entries.get? name es, rfl⟩
    | _ => exact ⟨none, rfl⟩
  | index i =>
    cases t with
    | array xs => exact ⟨itemAt? i xs, rfl⟩
    | _ => exact ⟨none, rfl⟩
  | slice first last =>
    cases t with
    | array xs => exact ⟨some (.array (between first last xs)), rfl⟩
    | _ => exact ⟨none, rfl⟩

theorem exists_matchesOf_eq {p : Path} (h : Component.each ∉ p) (t : Tree) :
    ∃ found : Option Tree, matchesOf (fun u => [u]) p t = found.toList := by
  induction p generalizing t with
  | nil => exact ⟨some t, rfl⟩
  | cons k p ih =>
    simp only [List.mem_cons, not_or] at h
    obtain ⟨found, hf⟩ := exists_matchesAt_eq (Ne.symm h.1) t
    simp only [matchesOf, hf]
    cases found with
    | none => exact ⟨none, rfl⟩
    | some u =>
      obtain ⟨found, hu⟩ := ih h.2 u
      exact ⟨found, by simpa using hu⟩

theorem evaluate_pipe {p : Path} (h : Component.each ∉ p) (t u : Tree) (rest : List Step)
    (source source' source'' : String) :
    evaluate t ⟨source, .path p :: rest⟩ = .ok u ↔
      ∃ x, evaluate t ⟨source', [.path p]⟩ = .ok x ∧ evaluate x ⟨source'', rest⟩ = .ok u := by
  obtain ⟨found, hf⟩ := exists_matchesOf_eq h t
  simp only [evaluate_eq_ok_iff_head?]
  show (matchesOf (allMatches rest) p t).head? = some u ↔
    ∃ x, (matchesOf (fun u => [u]) p t).head? = some x ∧ (allMatches rest x).head? = some u
  rw [matchesOf_eq_flatMap, hf]
  cases found <;> simp

/-- Where a path is divided between two steps makes no difference: the pipeline reads the same
value at the same place, or fails with the same error, which quotes the text of its own selector
if it quotes one. A pipeline behind a path without iteration reads what it reads on its own from
the node that the path leads to. -/
theorem split_path_reads_same (t : Tree) (source source' : String) (before after : List Step)
    (p q : Path) :
    evaluate t ⟨source', before ++ .path p :: .path q :: after⟩ =
      (evaluate t ⟨source, before ++ .path (p ++ q) :: after⟩).mapError (Error.requote source') ∧
    locate t ⟨source', before ++ .path p :: .path q :: after⟩ =
      (locate t ⟨source, before ++ .path (p ++ q) :: after⟩).mapError (Error.requote source') ∧
    (Component.each ∉ p → ∀ (source'' : String) (u : Tree),
      evaluate t ⟨source, .path p :: after⟩ = .ok u ↔
        ∃ x, evaluate t ⟨source', [.path p]⟩ = .ok x ∧ evaluate x ⟨source'', after⟩ = .ok u) := by
  have hsplit := @resolve_split source t before after p q
  refine ⟨?_, ?_, fun h source'' u => evaluate_pipe h t u after source source' source''⟩
  · rw [evaluate_requote source source']
    simp only [evaluate, hsplit]
  · rw [locate_requote source source']
    simp only [locate, hsplit]

end Selector

end FieldPatch
