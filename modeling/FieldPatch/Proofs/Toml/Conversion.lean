import FieldPatch.Proofs.Except
import FieldPatch.Proofs.Number.Signed
import FieldPatch.Proofs.Traversal
import FieldPatch.Proofs.Tree.Entries
import FieldPatch.Proofs.Tree.Occurrence
import FieldPatch.Toml.Value

/-! From trees to TOML values and back. Null has no value. All else comes back as it was, but for
the integers that the signed range has no place for: they come back as doubles. -/

namespace FieldPatch

namespace Tree

mutual

/-- The tree with all its numbers in the signed range. -/
def signed : Tree → Tree
  | .null => .null
  | .bool b => .bool b
  | .number n => .number n.signed
  | .text s => .text s
  | .array xs => .array (signedItems xs)
  | .map es => .map (signedEntries es)

def signedItems : List Tree → List Tree
  | [] => []
  | x :: xs => signed x :: signedItems xs

def signedEntries : Entries Tree → Entries Tree
  | [] => []
  | (k, x) :: es => (k, signed x) :: signedEntries es

end

theorem signedItems_eq_map (xs : List Tree) : signedItems xs = xs.map signed := by
  induction xs with
  | nil => rfl
  | cons x xs ih => rw [signedItems, ih, List.map_cons]

theorem signedEntries_eq_map (es : Entries Tree) :
    signedEntries es = es.map fun e => (e.1, e.2.signed) := by
  induction es with
  | nil => rfl
  | cons e es ih => rw [signedEntries, ih, List.map_cons]

theorem keys_signedEntries (es : Entries Tree) :
    Entries.keys (signedEntries es) = Entries.keys es := by
  simp [signedEntries_eq_map, Entries.keys]

theorem signed_eq_self_iff {t : Tree} :
    t.signed = t ↔ ∀ n, Occurs (.number (.whole n)) t → n.value < 0x8000000000000000 := by
  induction t using Tree.induction with
  | null => exact ⟨fun _ n h => (by cases h), fun _ => rfl⟩
  | bool b => exact ⟨fun _ n h => (by cases h), fun _ => rfl⟩
  | text s => exact ⟨fun _ n h => (by cases h), fun _ => rfl⟩
  | number n =>
    simp only [signed, number.injEq, Number.signed_eq_self_iff, occurs_number_iff]
    exact ⟨fun h k hk => h k hk.symm, fun h k hk => h k hk.symm⟩
  | array xs ih =>
    have hitems : signedItems xs = xs ↔ ∀ x ∈ xs, x.signed = x := by
      rw [signedItems_eq_map]
      simpa using List.map_inj_left (f := signed) (g := id) (l := xs)
    rw [signed, array.injEq, hitems]
    constructor
    · intro h n hn
      obtain heq | ⟨x, hx, hn⟩ := occurs_array_iff.mp hn
      · cases heq
      · exact (ih x hx).mp (h x hx) n hn
    · intro h x hx
      exact (ih x hx).mpr fun n hn => h n (.item hx hn)
  | map es ih =>
    have hentries : signedEntries es = es ↔ ∀ e ∈ es, e.2.signed = e.2 := by
      rw [signedEntries_eq_map]
      simpa [Prod.ext_iff] using
        List.map_inj_left (f := fun e : String × Tree => (e.1, e.2.signed)) (g := id) (l := es)
    rw [signed, map.injEq, hentries]
    constructor
    · intro h n hn
      obtain heq | ⟨e, he, hn⟩ := occurs_map_iff.mp hn
      · cases heq
      · exact (ih e he).mp (h e he) n hn
    · intro h e he
      exact (ih e he).mpr fun n hn => h n (.entry he hn)

end Tree

namespace Toml.Value

theorem ofTrees_eq_mapM (ts : List Tree) : ofTrees ts = ts.mapM ofTree :=
  eq_mapM ofTrees rfl (fun _ _ => rfl) ts

theorem ofPairs_eq_mapM (es : Entries Tree) :
    ofPairs es = es.mapM fun e => (ofTree e.2).map (e.1, ·) := by
  refine eq_mapM ofPairs rfl (fun e es => ?_) es
  rw [ofPairs, map_bind_eq]
  rfl

theorem toTrees_eq_mapM (vs : List Value) : toTrees vs = vs.mapM toTree :=
  eq_mapM toTrees rfl (fun _ _ => rfl) vs

theorem toPairs_eq_mapM (es : Entries Value) :
    toPairs es = es.mapM fun e => (toTree e.2).map (e.1, ·) := by
  refine eq_mapM toPairs rfl (fun e es => ?_) es
  rw [toPairs, map_bind_eq]
  rfl

theorem eq_nullInToml_of_ofTree {t : Tree} {e : Error} (h : ofTree t = .error e) :
    e = .document .nullInToml := by
  induction t using Tree.induction with
  | null =>
    rw [ofTree] at h
    exact (Except.error.inj h).symm
  | bool b => cases h
  | number n => cases h
  | text s => cases h
  | array xs ih =>
    rw [ofTree, ofTrees_eq_mapM] at h
    obtain hm | ⟨vs, -, hr⟩ := error_of_bind h
    · obtain ⟨x, hx, he⟩ := exists_error_of_mapM hm
      exact ih x hx he
    · cases hr
  | map es ih =>
    rw [ofTree, ofPairs_eq_mapM] at h
    obtain hm | ⟨vs, -, hr⟩ := error_of_bind h
    · obtain ⟨e', he', hf⟩ := exists_error_of_mapM hm
      cases hv : ofTree e'.2 with
      | ok v => rw [hv] at hf; cases hf
      | error e'' =>
        rw [hv] at hf
        cases hf
        exact ih e' he' hv
    · cases hr

theorem not_occurs_null_of_ofTree {t : Tree} {v : Value} (h : ofTree t = .ok v) :
    ¬ Tree.Occurs .null t := by
  induction t using Tree.induction generalizing v with
  | null => rw [ofTree] at h; cases h
  | bool b => intro hn; cases hn
  | number n => intro hn; cases hn
  | text s => intro hn; cases hn
  | array xs ih =>
    rw [ofTree, ofTrees_eq_mapM] at h
    obtain ⟨vs, hvs, -⟩ := ok_of_bind h
    intro hn
    obtain heq | ⟨x, hx, hn⟩ := Tree.occurs_array_iff.mp hn
    · cases heq
    · obtain ⟨w, -, hw⟩ := exists_ok_of_forall₂ (mapM_eq_ok_iff.mp hvs) hx
      exact ih x hx hw hn
  | map es ih =>
    rw [ofTree, ofPairs_eq_mapM] at h
    obtain ⟨fs, hfs, -⟩ := ok_of_bind h
    intro hn
    obtain heq | ⟨e, he, hn⟩ := Tree.occurs_map_iff.mp hn
    · cases heq
    · obtain ⟨f, -, hf⟩ := exists_ok_of_forall₂ (mapM_eq_ok_iff.mp hfs) he
      obtain ⟨w, hw, -⟩ := ok_of_map hf
      exact ih e he hw hn

theorem ofTree_of_occurs_null {t : Tree} (h : Tree.Occurs .null t) :
    ofTree t = .error (.document .nullInToml) := by
  cases ht : ofTree t with
  | ok v => exact absurd h (not_occurs_null_of_ofTree ht)
  | error e => rw [eq_nullInToml_of_ofTree ht]

/-- `v` is the value of `t`, and comes back as `t` with its numbers in the signed range. -/
def Carries (v : Value) (t : Tree) : Prop :=
  ofTree t = .ok v ∧ v.toTree = .ok t.signed

theorem carries_ofNumber (n : Number) : Carries (ofNumber n) (.number n) := by
  refine ⟨rfl, ?_⟩
  cases n with
  | float x finite => simp [ofNumber, toTree, floatTree, Number.ofFloat?, finite, Tree.signed, Number.signed]
  | whole k =>
    have hk := k.inRange
    by_cases h : k.value < 0x8000000000000000
    · have hi : Integer.ofInt? k.value = some ⟨k.value, hk.1, h⟩ := by
        simp [Integer.ofInt?, h, hk.1]
      simp [ofNumber, hi, toTree, Integer.toWhole, Tree.signed, Number.signed, h]
    · have hi : Integer.ofInt? k.value = none := by
        simp [Integer.ofInt?, h]
      have hfinite : (Binary64.ofInt k.value).isFinite = true :=
        Binary64.isFinite_ofInt (by omega) hk.2
      simp [ofNumber, hi, toTree, floatTree, Number.ofFloat?, hfinite, Tree.signed, Number.signed, h]

theorem carries_array {xs : List Tree} {vs : List Value} (h : List.Forall₂ (fun x v => Carries v x) xs vs) :
    Carries (.array vs) (.array xs) := by
  have hof : xs.mapM ofTree = .ok vs := mapM_eq_ok_iff.mpr (h.imp fun _ _ hc => hc.1)
  have hto : vs.mapM toTree = .ok (xs.map Tree.signed) :=
    mapM_eq_ok_iff.mpr (List.forall₂_map_right_iff.mpr (h.flip.imp fun _ _ hc => hc.2))
  constructor
  · rw [ofTree, ofTrees_eq_mapM, hof]
    rfl
  · rw [toTree, toTrees_eq_mapM, hto, Tree.signed, Tree.signedItems_eq_map]
    rfl

theorem carries_table {es : Entries Tree} {fs : Entries Value} (hkeys : (Entries.keys es).Nodup)
    (h : List.Forall₂ (fun e f => f.1 = e.1 ∧ Carries f.2 e.2) es fs) :
    Carries (.table fs) (.map es) := by
  have hof : (es.mapM fun e => (ofTree e.2).map (e.1, ·)) = .ok fs := by
    refine mapM_eq_ok_iff.mpr (h.imp fun e f hc => ?_)
    rw [hc.2.1, ← hc.1]
    rfl
  have hto : (fs.mapM fun f => (toTree f.2).map (f.1, ·)) = .ok (Tree.signedEntries es) := by
    rw [Tree.signedEntries_eq_map]
    refine mapM_eq_ok_iff.mpr (List.forall₂_map_right_iff.mpr (h.flip.imp fun f e hc => ?_))
    rw [hc.2.2, hc.1]
    rfl
  constructor
  · rw [ofTree, ofPairs_eq_mapM, hof]
    rfl
  · have hown : Entries.ofPairs (Tree.signedEntries es) = Tree.signedEntries es :=
      Entries.ofPairs_eq_self_iff.mpr (by rwa [Tree.keys_signedEntries])
    rw [toTree, toPairs_eq_mapM, hto, ok_bind, hown, Tree.signed]
    rfl

theorem exists_carries {t : Tree} (hkeys : t.DistinctKeys) (hnull : ¬ Tree.Occurs .null t) :
    ∃ v, Carries v t := by
  induction t using Tree.induction with
  | null => exact absurd .root hnull
  | bool b => exact ⟨.boolean b, rfl, rfl⟩
  | number n => exact ⟨ofNumber n, carries_ofNumber n⟩
  | text s => exact ⟨.text s, rfl, rfl⟩
  | array xs ih =>
    have hitems : ∀ x ∈ xs, ∃ v, Carries v x := fun x hx =>
      ih x hx (hkeys.item hx) fun hn => hnull (.item hx hn)
    obtain ⟨vs, hvs⟩ := exists_forall₂ hitems
    exact ⟨.array vs, carries_array hvs⟩
  | map es ih =>
    have hentries : ∀ e ∈ es, ∃ f : String × Value, f.1 = e.1 ∧ Carries f.2 e.2 := by
      intro e he
      obtain ⟨v, hv⟩ := ih e he (hkeys.entry he) fun hn => hnull (.entry he hn)
      exact ⟨(e.1, v), rfl, hv⟩
    obtain ⟨fs, hfs⟩ := exists_forall₂ hentries
    exact ⟨.table fs, carries_table hkeys.keys hfs⟩

/-- A tree with null anywhere has no value. Any other tree has one, which comes back as that tree
but for its integers above the signed range, each of which is then the double next to it: exactly
the trees without such an integer come back as they were. -/
theorem toTree_ofTree_eq_signed {t : Tree} (hkeys : t.DistinctKeys) :
    (Tree.Occurs .null t → ofTree t = .error (.document .nullInToml)) ∧
    (¬ Tree.Occurs .null t → ∃ v, ofTree t = .ok v ∧ v.toTree = .ok t.signed) ∧
    (t.signed = t ↔ ∀ n, Tree.Occurs (.number (.whole n)) t → n.value < 0x8000000000000000) :=
  ⟨ofTree_of_occurs_null, exists_carries hkeys, Tree.signed_eq_self_iff⟩

def limits : Tree :=
  .map [("limit", .number (.whole ⟨0x8000000000000000, by decide⟩)), ("name", .text "db")]

theorem occurs_limits_iff {u : Tree} : Tree.Occurs u limits ↔
    u = limits ∨ u = .number (.whole ⟨0x8000000000000000, by decide⟩) ∨ u = .text "db" := by
  have htext : Tree.Occurs u (.text "db") ↔ u = .text "db" := by
    constructor
    · intro h
      cases h
      rfl
    · rintro rfl
      exact .root
  simp [limits, Tree.occurs_map_iff, Tree.occurs_number_iff, htext]

theorem distinctKeys_limits : limits.DistinctKeys := by
  intro es hes
  obtain heq | heq | heq := occurs_limits_iff.mp hes
  · obtain rfl := Tree.map.inj heq
    decide
  · cases heq
  · cases heq

theorem not_occurs_null_limits : ¬ Tree.Occurs .null limits := by
  rw [occurs_limits_iff]
  rintro (heq | heq | heq) <;> cases heq

theorem signed_limits_ne : limits.signed ≠ limits := by
  intro heq
  have hlt := Tree.signed_eq_self_iff.mp heq ⟨0x8000000000000000, by decide⟩
    (occurs_limits_iff.mpr (.inr (.inl rfl)))
  exact absurd hlt (by decide)

theorem toTree_ofTree_limits : limits.DistinctKeys ∧ ¬ Tree.Occurs .null limits ∧
    (∃ v, ofTree limits = .ok v ∧ v.toTree = .ok limits.signed) ∧ limits.signed ≠ limits :=
  have h := toTree_ofTree_eq_signed distinctKeys_limits
  ⟨distinctKeys_limits, not_occurs_null_limits, h.2.1 not_occurs_null_limits, signed_limits_ne⟩

theorem large_integer_comes_back_changed : ¬ ∀ t : Tree, t.DistinctKeys →
    ((∃ e, ofTree t = .error e) ∨ ∃ v, ofTree t = .ok v ∧ v.toTree = .ok t) ∧
    (Tree.Occurs .null t → ∃ e, ofTree t = .error e) := by
  intro hroundtrip
  obtain ⟨v, hof, hto⟩ := exists_carries distinctKeys_limits not_occurs_null_limits
  obtain ⟨⟨e, he⟩ | ⟨w, hw, hback⟩, -⟩ := hroundtrip limits distinctKeys_limits
  · rw [hof] at he
    cases he
  · obtain rfl : v = w := Except.ok.inj (hof.symm.trans hw)
    exact signed_limits_ne (Except.ok.inj (hto.symm.trans hback))

end Toml.Value

end FieldPatch
