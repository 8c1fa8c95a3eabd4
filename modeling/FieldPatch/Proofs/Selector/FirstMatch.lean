import FieldPatch.Proofs.Selector.Trace
import FieldPatch.Proofs.Tree.Position

/-! All matches of a pipeline, and evaluation as the first of them. -/

namespace FieldPatch.Selector

/-- What one component contributes at a node: its items for `[]`, and otherwise one node or
none. -/
def Component.matchesAt (t : Tree) (k : Component) : List Tree :=
  match k, t with
  | .field name, .map es => (Entries.get? name es).toList
  | .key name, .map es => (Entries.get? name es).toList
  | .index i, .array xs => (itemAt? i xs).toList
  | .slice first last, .array xs => [.array (between first last xs)]
  | .each, .array xs => xs
  | _, _ => []

/-- The matches of all that remains: of a path, and of what `rest` is for the nodes behind
it. -/
def matchesOf (rest : Tree → List Tree) : Path → Tree → List Tree
  | [], t => rest t
  | k :: p, t => (k.matchesAt t).flatMap (matchesOf rest p)

/-- Whether a node is kept. Only the first match of the path counts, and only if it is a
scalar. -/
def Comparison.keeps (c : Comparison) (t : Tree) : Bool :=
  let text := (matchesOf (fun u => [u]) c.left t).head?.bind Tree.scalarText
  match c.relation with
  | .equal => decide (text = some c.right.render)
  | .notEqual => decide (text ≠ some c.right.render)

/-- All matches of a pipeline, in order. -/
def allMatches : List Step → Tree → List Tree
  | [], t => [t]
  | .path p :: rest, t => matchesOf (allMatches rest) p t
  | .select c :: rest, t => if c.keeps t then allMatches rest t else []

def foundNode : Outcome → Option Tree
  | .ok (some c) => some c.node
  | _ => none

theorem foundNode_firstThrough (source : String) (search : Cursor → Outcome) (cs : List Cursor) :
    foundNode (firstThrough source search cs) = cs.findSome? fun c => foundNode (search c) := by
  induction cs with
  | nil => rfl
  | cons c cs ih =>
    rw [List.findSome?_cons]
    unfold firstThrough
    split
    · next found hc => simp [hc, foundNode]
    · next hc =>
      have hn : foundNode (search c) = none := by
        unfold foundNode
        split
        · next found hs => exact absurd hs (hc found)
        · rfl
      rw [ih, hn]

section

variable {next : Cursor → Outcome} {rest : Tree → List Tree}

theorem foundNode_bind (hn : ∀ c, foundNode (next c) = (rest c.node).head?)
    {r : Except Error Cursor} {us : List Tree} (hr : (r.toOption.map Cursor.node).toList = us) :
    foundNode (r >>= next) = (us.flatMap rest).head? := by
  subst us
  cases r with
  | error err => rfl
  | ok c =>
    show foundNode (next c) = _
    simp [Except.toOption, hn]

theorem foundNode_elements (hn : ∀ c, foundNode (next c) = (rest c.node).head?) (source : String)
    (c : Cursor) :
    foundNode (c.elements >>= firstThrough source next) =
      ((Component.each.matchesAt c.node).flatMap rest).head? := by
  obtain ⟨t, l⟩ := c
  cases t with
  | array xs =>
    let c : Cursor := ⟨.array xs, l⟩
    have hx : (c.elementsFrom 0 xs).map Cursor.node = xs := by
      rw [Cursor.elementsFrom_eq, List.map_map]
      exact List.zipIdx_map_fst 0 xs
    show foundNode (firstThrough source next (c.elementsFrom 0 xs)) = (xs.flatMap rest).head?
    rw [foundNode_firstThrough, List.head?_flatMap]
    calc (c.elementsFrom 0 xs).findSome? (fun c => foundNode (next c))
        = ((c.elementsFrom 0 xs).map Cursor.node).findSome? (fun u => (rest u).head?) := by
          simp only [List.findSome?_map, hn]
          rfl
      _ = xs.findSome? (fun u => (rest u).head?) := by rw [hx]
  | _ => rfl

theorem field_matchesAt (c : Cursor) (name : String) :
    ((c.field name).toOption.map Cursor.node).toList = (Component.field name).matchesAt c.node := by
  obtain ⟨t, l⟩ := c
  cases t with
  | map es =>
    simp only [Cursor.field, Component.matchesAt]
    cases Entries.get? name es <;> rfl
  | _ => rfl

theorem key_matchesAt (c : Cursor) (name : String) :
    ((c.field name).toOption.map Cursor.node).toList = (Component.key name).matchesAt c.node := by
  rw [field_matchesAt]
  cases c.node <;> rfl

theorem index_matchesAt (c : Cursor) (i : Int) :
    ((c.index i).toOption.map Cursor.node).toList = (Component.index i).matchesAt c.node := by
  obtain ⟨t, l⟩ := c
  cases t with
  | array xs =>
    simp only [Cursor.index, Component.matchesAt, itemAt?_eq]
    cases resolveIndex i xs.length with
    | error err => rfl
    | ok n =>
      simp only [bind, Except.bind, Except.toOption, Option.bind_some]
      cases xs[n]? <;> rfl
  | _ => rfl

theorem slice_matchesAt (c : Cursor) (first last : Option Int) :
    ((c.slice first last).toOption.map Cursor.node).toList =
      (Component.slice first last).matchesAt c.node := by
  obtain ⟨t, l⟩ := c
  cases t with
  | array xs =>
    simp only [Component.matchesAt, between_eq]
    rfl
  | _ => rfl

theorem foundNode_follow (hn : ∀ c, foundNode (next c) = (rest c.node).head?) (source : String)
    (p : Path) (c : Cursor) :
    foundNode (follow source next p c) = (matchesOf rest p c.node).head? := by
  induction p generalizing c with
  | nil => exact hn c
  | cons k p ih =>
    cases k with
    | field name => exact foundNode_bind ih (field_matchesAt c name)
    | key name => exact foundNode_bind ih (key_matchesAt c name)
    | index i => exact foundNode_bind ih (index_matchesAt c i)
    | slice first last => exact foundNode_bind ih (slice_matchesAt c first last)
    | each => exact foundNode_elements ih source c

end

theorem holds_eq_keeps (source : String) (c : Comparison) (t : Tree) :
    c.holds source t = c.keeps t := by
  have hs : scalarAt source c.left t =
      (matchesOf (fun u => [u]) c.left t).head?.bind Tree.scalarText := by
    have hh := @foundNode_follow (fun c => .ok (some c)) (fun u => [u]) (fun _ => rfl) source
      c.left ⟨t, none⟩
    rw [← hh]
    unfold scalarAt foundNode
    split <;> simp_all
  unfold Comparison.holds Comparison.keeps
  cases c.relation <;> simp [hs]

theorem foundNode_run (source : String) (steps : List Step) (c : Cursor) :
    foundNode (run source steps c) = (allMatches steps c.node).head? := by
  induction steps generalizing c with
  | nil => rfl
  | cons s rest ih =>
    cases s with
    | path p => exact foundNode_follow ih source p c
    | select condition =>
      unfold run allMatches
      rw [holds_eq_keeps]
      split
      · exact ih c
      · rfl

theorem evaluate_eq_ok_iff {t u : Tree} {e : Expression} :
    evaluate t e = .ok u ↔ foundNode (run e.source e.steps (.root t)) = some u := by
  unfold evaluate resolve
  cases hr : run e.source e.steps (.root t) with
  | error err => simp [foundNode, Except.map]
  | ok found => cases found <;> simp [foundNode, Except.map]

theorem evaluate_eq_ok_iff_head? {t u : Tree} {e : Expression} :
    evaluate t e = .ok u ↔ (allMatches e.steps t).head? = some u := by
  rw [evaluate_eq_ok_iff, foundNode_run]
  rfl

/-- Evaluation succeeds if there is a match at all, and yields the first one, however many
iterations and conditions lie on the way. -/
theorem evaluate_first_match (t : Tree) (e : Expression) :
    ((∃ u, evaluate t e = .ok u) ↔ allMatches e.steps t ≠ []) ∧
      ∀ u, evaluate t e = .ok u ↔ (allMatches e.steps t).head? = some u := by
  have hh : ∀ u, evaluate t e = .ok u ↔ (allMatches e.steps t).head? = some u := by
    intro u
    rw [evaluate_eq_ok_iff, foundNode_run]
    rfl
  refine ⟨?_, hh⟩
  simp only [hh]
  cases allMatches e.steps t <;> simp

-- the second step iterates anew in each item of the first, and the null in between is passed over
example :
    allMatches [.path [.each], .path [.each], .select ⟨[], .notEqual, .text "a"⟩]
      (.array [.array [.text "a"], .null, .array [.text "a", .text "b"], .array [.text "c"]]) =
      [.text "b", .text "c"] := by rfl

end FieldPatch.Selector
