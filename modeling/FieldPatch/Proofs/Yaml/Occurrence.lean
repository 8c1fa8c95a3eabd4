import FieldPatch.Yaml.Merge
import Mathlib

/-! The nodes of a YAML value, and what is known of all of them: in a value that was read no mapping
has a key twice, and merging leaves alone a value without merge keys. -/

namespace FieldPatch.Yaml

namespace Value

theorem induction {P : Value → Prop} (scalar : ∀ s, P (.scalar s))
    (sequence : ∀ xs, (∀ x ∈ xs, P x) → P (.sequence xs))
    (mapping : ∀ es, (∀ e ∈ es, P e.2) → P (.mapping es))
    (tagged : ∀ tag v, P v → P (.tagged tag v)) : ∀ v, P v
  | .scalar s => scalar s
  | .sequence xs => sequence xs fun x _ => induction scalar sequence mapping tagged x
  | .mapping es => mapping es fun e _ => induction scalar sequence mapping tagged e.2
  | .tagged tag v => tagged tag v (induction scalar sequence mapping tagged v)
termination_by v => v
decreasing_by
  · rename_i hx
    have hx := List.sizeOf_lt_of_mem hx
    simp
    omega
  · rename_i he
    have he := List.sizeOf_lt_of_mem he
    obtain ⟨k, v⟩ := e
    simp at he ⊢
    omega
  · rw [Value.tagged.sizeOf_spec]
    omega

/-- `w` is a node of the value. The keys of mappings are no nodes. -/
inductive Occurs (w : Value) : Value → Prop
  | root : Occurs w w
  | item {xs : List Value} {x : Value} (hx : x ∈ xs) (h : Occurs w x) : Occurs w (.sequence xs)
  | entry {es : List (Value × Value)} {e : Value × Value} (he : e ∈ es) (h : Occurs w e.2) :
    Occurs w (.mapping es)
  | content {tag : String} {v : Value} (h : Occurs w v) : Occurs w (.tagged tag v)

/-- No mapping of the value has a key twice. -/
def DifferentKeys (v : Value) : Prop :=
  ∀ es, Occurs (.mapping es) v → es.Pairwise fun e f => f.1.same e.1 = false

def NoMergeKeys (v : Value) : Prop :=
  ∀ es, Occurs (.mapping es) v → ∀ e ∈ es, e.1.isMergeKey = false

theorem dropMergeKey_eq_self {α : Type} {es : List (Value × α)}
    (h : ∀ e ∈ es, e.1.isMergeKey = false) : dropMergeKey es = es := by
  induction es with
  | nil => rfl
  | cons e es ih =>
    rw [dropMergeKey, h e List.mem_cons_self, if_neg Bool.false_ne_true,
      ih fun f hf => h f (List.mem_cons_of_mem e hf)]

theorem mergedEntries_eq_map (es : List (Value × Value)) :
    mergedEntries es = es.map fun e => (e.1, merged e.2) := by
  induction es with
  | nil => rfl
  | cons e es ih => rw [mergedEntries, ih, List.map_cons]

theorem mergeSource_eq_nil {es : List (Value × Value)} (h : ∀ e ∈ es, e.1.isMergeKey = false) :
    mergeSource es = some [] := by
  induction es with
  | nil => rfl
  | cons e es ih =>
    obtain ⟨k, v⟩ := e
    have hk : k.isMergeKey = false := h (k, v) List.mem_cons_self
    have hrest := ih fun f hf => h f (List.mem_cons_of_mem (k, v) hf)
    cases v <;> simp [mergeSource, hk, hrest]

theorem allValues_map_some {es : List (Value × Value)} {f : Value → Option Value}
    (h : ∀ e ∈ es, f e.2 = some e.2) : allValues (es.map fun e => (e.1, f e.2)) = some es := by
  induction es with
  | nil => rfl
  | cons e es ih =>
    rw [List.map_cons, allValues, h e List.mem_cons_self,
      ih fun g hg => h g (List.mem_cons_of_mem e hg)]
    rfl

theorem mergedItems_eq_some {xs : List Value} (h : ∀ x ∈ xs, merged x = some x) :
    mergedItems xs = some xs := by
  induction xs with
  | nil => rfl
  | cons x xs ih =>
    rw [mergedItems, h x List.mem_cons_self, ih fun y hy => h y (List.mem_cons_of_mem x hy)]
    rfl

theorem merged_eq_self {v : Value} (h : v.NoMergeKeys) : v.merged = some v := by
  induction v using Value.induction with
  | scalar s => rfl
  | sequence xs ih =>
    have hitems : ∀ x ∈ xs, merged x = some x := fun x hx => ih x hx fun es hes => h es (.item hx hes)
    rw [merged, mergedItems_eq_some hitems]
    rfl
  | mapping es ih =>
    have hkeys := h es .root
    have hvals : ∀ e ∈ es, merged e.2 = some e.2 := fun e he =>
      ih e he fun fs hfs => h fs (.entry he hfs)
    have hown : ∀ e ∈ mergedEntries es, e.1.isMergeKey = false := by
      intro e he
      rw [mergedEntries_eq_map] at he
      obtain ⟨f, hf, rfl⟩ := List.mem_map.mp he
      exact hkeys f hf
    rw [merged, mergeSource_eq_nil hkeys, dropMergeKey_eq_self hown, mergedEntries_eq_map]
    show (allValues (fillFrom _ [])).bind _ = _
    rw [fillFrom, allValues_map_some hvals]
    rfl
  | tagged tag v ih =>
    rw [merged, ih fun es hes => h es (.content hes)]
    rfl

end Value

/-- All that a computation may result in satisfies `P`. -/
def Yields {α : Type} (c : Resolving α) (P : α → Prop) : Prop :=
  ∀ anchors budget a rest, c anchors budget = some (a, rest) → P a

namespace Yields

variable {α β : Type} {c : Resolving α} {P : α → Prop} {Q : β → Prop}

theorem any (c : Resolving α) : Yields c fun _ => True :=
  fun _ _ _ _ _ => True.intro

theorem pure {a : α} (h : P a) : Yields (Pure.pure a) P := by
  intro anchors budget b rest hb
  cases hb
  exact h

theorem failure : Yields (Alternative.failure : Resolving α) P := by
  intro anchors budget a rest h
  cases h

theorem bind {f : α → Resolving β} (hc : Yields c P) (hf : ∀ a, P a → Yields (f a) Q) :
    Yields (c >>= f) Q := by
  intro anchors budget b rest hb
  obtain ⟨⟨a, budget'⟩, ha, hfa⟩ := Option.bind_eq_some_iff.mp hb
  exact hf a (hc anchors budget a budget' ha) anchors budget' b rest hfa

theorem guarded (p : Prop) [Decidable p] : Yields (guard p) fun _ => p := by
  intro anchors budget u rest h
  by_cases hp : p
  · exact hp
  · rw [guard, if_neg hp] at h
    cases h

theorem mapM {f : α → Resolving β} {xs : List α} (h : ∀ x ∈ xs, Yields (f x) Q) :
    Yields (xs.mapM f) fun ys => ∀ y ∈ ys, Q y := by
  induction xs with
  | nil => exact pure (by simp)
  | cons x xs ih =>
    rw [List.mapM_cons]
    refine bind (h x List.mem_cons_self) fun y hy => ?_
    refine bind (ih fun z hz => h z (List.mem_cons_of_mem x hz)) fun ys hys => ?_
    exact pure (List.forall_mem_cons.mpr ⟨hy, hys⟩)

end Yields

namespace Value

theorem differentKeys_scalar (s : Scalar) : (scalar s).DifferentKeys := by
  intro es hes
  cases hes

theorem differentKeys_sequence {xs : List Value} (h : ∀ x ∈ xs, x.DifferentKeys) :
    (sequence xs).DifferentKeys := by
  intro es hes
  cases hes with
  | item hx hes => exact h _ hx es hes

theorem differentKeys_mapping {es : List (Value × Value)}
    (hkeys : es.Pairwise fun e f => f.1.same e.1 = false) (h : ∀ e ∈ es, e.2.DifferentKeys) :
    (mapping es).DifferentKeys := by
  intro fs hfs
  cases hfs with
  | root => exact hkeys
  | entry he hfs => exact h _ he fs hfs

theorem differentKeys_underTag {tag : Option String} {v : Value} (h : v.DifferentKeys) :
    (underTag tag v).DifferentKeys := by
  rw [underTag]
  split
  · intro es hes
    cases hes with
    | content hes => exact h es hes
  · exact h

theorem isKeyIn_eq_false_iff {k : Value} {es : List (Value × Value)} :
    k.isKeyIn es = false ↔ ∀ e ∈ es, k.same e.1 = false := by
  simp [isKeyIn]

end Value

theorem yields_entries {read : Node → Resolving Value} (hread : ∀ n, Yields (read n) Value.DifferentKeys)
    {before : List (Value × Value)} (hkeys : before.Pairwise fun e f => f.1.same e.1 = false)
    (hvals : ∀ e ∈ before, e.2.DifferentKeys) (es : List (Node × Node)) :
    Yields (entries read before es) fun fs => (Value.mapping fs).DifferentKeys := by
  induction es generalizing before with
  | nil => exact Yields.pure (Value.differentKeys_mapping hkeys hvals)
  | cons e es ih =>
    rw [entries]
    refine Yields.bind (Yields.any _) fun k _ => ?_
    refine Yields.bind (Yields.guarded _) fun _ hk => ?_
    refine Yields.bind (hread e.2) fun v hv => ih ?_ ?_
    · have hnew : ∀ f ∈ before, k.same f.1 = false := Value.isKeyIn_eq_false_iff.mp (by simpa using hk)
      exact List.pairwise_append.mpr ⟨hkeys, List.pairwise_singleton _ _, by simpa using hnew⟩
    · intro f hf
      obtain hf | hf := List.mem_append.mp hf
      · exact hvals f hf
      · rw [List.mem_singleton.mp hf]
        exact hv

/-- The keys of a mapping that is read are different from each other. -/
theorem yields_value (depth : Nat) (n : Node) : Yields (value depth n) Value.DifferentKeys := by
  induction depth generalizing n with
  | zero =>
    rw [value]
    refine Yields.bind (Yields.any _) fun node _ => ?_
    cases node with
    | scalar tag plain text =>
      refine Yields.bind (Yields.any _) fun s _ => ?_
      exact Yields.pure (Value.differentKeys_underTag (Value.differentKeys_scalar s))
    | _ => exact Yields.failure
  | succ depth ih =>
    rw [value]
    refine Yields.bind (Yields.any _) fun node _ => ?_
    cases node with
    | scalar tag plain text =>
      refine Yields.bind (Yields.any _) fun s _ => ?_
      exact Yields.pure (Value.differentKeys_underTag (Value.differentKeys_scalar s))
    | sequence tag items =>
      refine Yields.bind (Yields.mapM fun x _ => ih x) fun xs hxs => ?_
      exact Yields.pure (Value.differentKeys_underTag (Value.differentKeys_sequence hxs))
    | mapping tag es =>
      refine Yields.bind (yields_entries ih List.Pairwise.nil (by simp) es) fun fs hfs => ?_
      exact Yields.pure (Value.differentKeys_underTag hfs)
    | _ => exact Yields.failure

theorem Document.differentKeys_of_value? {d : Document} {v : Value} (h : d.value? = some v) :
    v.DifferentKeys := by
  obtain ⟨⟨w, rest⟩, hw, rfl⟩ := Option.map_eq_some_iff.mp h
  exact yields_value maxDepth _ _ _ w rest hw

end FieldPatch.Yaml
