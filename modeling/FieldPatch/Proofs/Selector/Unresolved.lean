import FieldPatch.Proofs.Except
import FieldPatch.Selector.Eval

/-! Evaluation fails in one way only: the selector leads nowhere. Either a component has nothing to
go to, or nothing gets through the iterations and conditions. -/

namespace FieldPatch

/-- Whatever error there is says that something is not there. -/
def Unresolving {α : Type} (r : Except Error α) : Prop :=
  ∀ err, r = .error err → err.isUnresolved = true

/-- Whatever error there is is of this kind. -/
def FailsOnly {α : Type} (P : Error → Prop) (r : Except Error α) : Prop :=
  ∀ err, r = .error err → P err

section

variable {α β : Type} {P Q : Error → Prop} {r : Except Error α}

theorem FailsOnly.ok (a : α) : FailsOnly P (.ok a) := nofun

theorem FailsOnly.error {err : Error} (h : P err) : FailsOnly P (.error err : Except Error α) := by
  rintro _ ⟨⟩
  exact h

theorem FailsOnly.bind {f : α → Except Error β} (h : FailsOnly P r) (hf : ∀ a, FailsOnly P (f a)) :
    FailsOnly P (r >>= f) := by
  intro err he
  rcases error_of_bind he with hr | ⟨a, -, ha⟩
  · exact h err hr
  · exact hf a err ha

theorem FailsOnly.mono (h : FailsOnly P r) (hpq : ∀ err, P err → Q err) : FailsOnly Q r :=
  fun err he => hpq err (h err he)

end

/-- Why a component has nothing to go to from a node. -/
inductive Error.Stuck : Error → Prop
  | noField (name : String) : Stuck (.notFound (.field name))
  | notMap {found : Kind} (h : found ≠ .map) : Stuck (.typeMismatch "map" found)
  | notArray {found : Kind} (h : found ≠ .array) : Stuck (.typeMismatch "array" found)
  | outside {i : Int} {length : Nat} (h : i < -length ∨ length ≤ i) :
    Stuck (.indexOutOfBounds i length)

/-- Why a selector leads nowhere. -/
inductive Error.Nowhere (source : String) : Error → Prop
  | stuck {err : Error} (h : err.Stuck) : Nowhere source err
  | noMatch : Nowhere source (.noMatch source)

theorem Error.Stuck.isUnresolved {err : Error} (h : err.Stuck) : err.isUnresolved = true := by
  cases h <;> rfl

theorem Error.Nowhere.isUnresolved {source : String} {err : Error} (h : err.Nowhere source) :
    err.isUnresolved = true := by
  cases h with
  | stuck h => exact h.isUnresolved
  | noMatch => rfl

theorem resolveIndex_stuck (i : Int) (length : Nat) :
    FailsOnly Error.Stuck (resolveIndex i length) := by
  intro err h
  simp only [resolveIndex] at h
  split at h
  · next hout =>
    cases h
    refine .outside ?_
    unfold fromFront at hout
    split at hout <;> omega
  · cases h

theorem Tree.kind_ne_map {t : Tree} (h : ∀ es, t ≠ .map es) : t.kind ≠ .map := by
  cases t with
  | map es => exact absurd rfl (h es)
  | _ => exact nofun

theorem Tree.kind_ne_array {t : Tree} (h : ∀ xs, t ≠ .array xs) : t.kind ≠ .array := by
  cases t with
  | array xs => exact absurd rfl (h xs)
  | _ => exact nofun

namespace Selector

theorem Cursor.field_stuck (c : Cursor) (name : String) : FailsOnly Error.Stuck (c.field name) := by
  unfold field
  split
  · split
    · exact .ok _
    · exact .error (.noField name)
  · next hnot => exact .error (.notMap (Tree.kind_ne_map hnot))

theorem Cursor.index_stuck (c : Cursor) (i : Int) : FailsOnly Error.Stuck (c.index i) := by
  unfold index
  split
  · next xs _ =>
    have hr := resolveIndex_stuck i xs.length
    intro err he
    rcases error_of_bind he with hi | ⟨n, hi, hn⟩
    · exact hr err hi
    · rw [List.getElem?_eq_getElem (resolveIndex_lt hi)] at hn
      cases hn
  · next hnot => exact .error (.notArray (Tree.kind_ne_array hnot))

theorem Cursor.slice_stuck (c : Cursor) (first last : Option Int) :
    FailsOnly Error.Stuck (c.slice first last) := by
  unfold slice
  split
  · exact .ok _
  · next hnot => exact .error (.notArray (Tree.kind_ne_array hnot))

theorem Cursor.elements_stuck (c : Cursor) : FailsOnly Error.Stuck c.elements := by
  unfold elements
  split
  · exact .ok _
  · next hnot => exact .error (.notArray (Tree.kind_ne_array hnot))

theorem firstThrough_fails (source : String) (search : Cursor → Outcome) (cs : List Cursor) :
    FailsOnly (· = .noMatch source) (firstThrough source search cs) := by
  induction cs with
  | nil => exact .error rfl
  | cons c cs ih =>
    unfold firstThrough
    split
    · exact .ok _
    · exact ih

variable {source : String}

theorem follow_nowhere {next : Cursor → Outcome}
    (hn : ∀ c, FailsOnly (Error.Nowhere source) (next c)) (p : Path) (c : Cursor) :
    FailsOnly (Error.Nowhere source) (follow source next p c) := by
  induction p generalizing c with
  | nil => exact hn c
  | cons k p ih =>
    cases k with
    | field name => exact ((c.field_stuck name).mono fun _ => .stuck).bind ih
    | key name => exact ((c.field_stuck name).mono fun _ => .stuck).bind ih
    | index i => exact ((c.index_stuck i).mono fun _ => .stuck).bind ih
    | slice first last => exact ((c.slice_stuck first last).mono fun _ => .stuck).bind ih
    | each =>
      have hall : ∀ ds, FailsOnly (Error.Nowhere source) (firstThrough source (follow source next p) ds) := by
        intro ds
        refine (firstThrough_fails source _ ds).mono ?_
        rintro _ rfl
        exact .noMatch
      exact (c.elements_stuck.mono fun _ => .stuck).bind hall

theorem run_nowhere (source : String) (steps : List Step) (c : Cursor) :
    FailsOnly (Error.Nowhere source) (run source steps c) := by
  induction steps generalizing c with
  | nil => exact .ok _
  | cons s rest ih =>
    cases s with
    | path p => exact follow_nowhere ih p c
    | select condition =>
      unfold run
      split
      · exact ih c
      · exact .ok _

theorem evaluate_fails {P : Error → Prop} {t : Tree} {e : Expression} (hm : P (.noMatch e.source))
    (hr : FailsOnly P (run e.source e.steps (.root t))) : FailsOnly P (evaluate t e) := by
  unfold evaluate resolve
  split
  · exact .ok _
  · exact .error hm
  · next err he => exact .error (hr err he)

theorem evaluate_nowhere (t : Tree) (e : Expression) :
    FailsOnly (Error.Nowhere e.source) (evaluate t e) :=
  evaluate_fails .noMatch (run_nowhere e.source e.steps (.root t))

theorem evaluate_unresolving (t : Tree) (e : Expression) : Unresolving (evaluate t e) :=
  fun err he => (evaluate_nowhere t e err he).isUnresolved

end Selector

end FieldPatch
