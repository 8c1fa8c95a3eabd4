import FieldPatch.Proofs.Tree.Occurrence
import FieldPatch.Proofs.Tree.Overwrite
import FieldPatch.Proofs.Tree.Replace

/-! Trees that only grew: nothing of the earlier one is lost or moved, and all that is new are
strings at the ends of maps. -/

namespace FieldPatch

/-- An item of a list after a set is the one that was there, or the one that was set. -/
theorem getElem?_set_cases {α : Type} {xs : List α} {i j : Nat} {a b x x' : α}
    (hj : xs[j]? = some a) (hx : xs[i]? = some x) (hx' : (xs.set j b)[i]? = some x') :
    x' = x ∨ x = a ∧ x' = b := by
  by_cases h : j = i
  · subst h
    obtain rfl := Option.some.inj (hj.symm.trans hx)
    rw [List.getElem?_set_self (List.getElem?_eq_some_iff.mp hx).1] at hx'
    exact .inr ⟨rfl, (Option.some.inj hx').symm⟩
  · rw [List.getElem?_set_ne h, hx] at hx'
    exact .inl (Option.some.inj hx').symm

theorem Entries.put_eq_set {α : Type} {key : String} {v : α} {es : Entries α}
    (h : get? key es = some v) (v' : α) :
    ∃ j, es[j]? = some (key, v) ∧ put key v' es = es.set j (key, v') := by
  induction es with
  | nil => cases h
  | cons e rest ih =>
    obtain ⟨k, old⟩ := e
    by_cases hk : k = key
    · obtain rfl : old = v := by simpa [get?, hk] using h
      exact ⟨0, by simp [hk], by simp [put, hk]⟩
    · obtain ⟨j, hj, hput⟩ := ih (by simpa [get?, hk] using h)
      exact ⟨j + 1, by simpa using hj, by simp [put, hk, hput]⟩

/-- A key is found where it was, among more keys behind those that there were. -/
theorem Entries.get?_of_prefix {α : Type} {key : String} {v : α} {es es' : Entries α}
    (hkeys : keys es <+: keys es') (h : get? key es = some v) :
    ∃ (j : Nat) (v' : α), es[j]? = some (key, v) ∧ es'[j]? = some (key, v') ∧
      get? key es' = some v' := by
  induction es generalizing es' with
  | nil => cases h
  | cons e rest ih =>
    obtain ⟨k, old⟩ := e
    cases es' with
    | nil => simp [keys] at hkeys
    | cons e' rest' =>
      obtain ⟨k', new⟩ := e'
      obtain ⟨rfl, hrest⟩ : k = k' ∧ keys rest <+: keys rest' := by simpa [keys] using hkeys
      by_cases hk : k = key
      · obtain rfl : old = v := by simpa [get?, hk] using h
        exact ⟨0, new, by simp [hk], by simp [hk], by simp [get?, hk]⟩
      · obtain ⟨j, v', hj, hj', hget⟩ := ih hrest (by simpa [get?, hk] using h)
        exact ⟨j + 1, v', by simpa using hj, by simpa using hj', by simpa [get?, hk] using hget⟩

namespace Tree

def isScalar (t : Tree) : Bool := t.scalarText.isSome

/-- Scalars stay scalars, of their kind unless they became strings. Arrays keep their length.
The keys of a map are the first of those of the later map, whose further entries are strings. -/
inductive Grows : Tree → Tree → Prop
  | scalar {s s' : Tree} (hs : s.isScalar = true) (hs' : s'.isScalar = true)
    (hk : s'.kind = s.kind ∨ s'.kind = .string) : Grows s s'
  | array {xs xs' : List Tree} (hlen : xs'.length = xs.length)
    (h : ∀ (i : Nat) (x x' : Tree), xs[i]? = some x → xs'[i]? = some x' → Grows x x') :
    Grows (.array xs) (.array xs')
  | map {es es' : Entries Tree} (hkeys : Entries.keys es <+: Entries.keys es')
    (h : ∀ (i : Nat) (e e' : String × Tree), es[i]? = some e → es'[i]? = some e' → Grows e.2 e'.2)
    (hnew : ∀ (i : Nat) (e' : String × Tree), es.length ≤ i → es'[i]? = some e' → ∃ s, e'.2 = .text s) :
    Grows (.map es) (.map es')

theorem Grows.refl (t : Tree) : Grows t t := by
  induction t using Tree.induction with
  | null => exact .scalar rfl rfl (.inl rfl)
  | bool b => exact .scalar rfl rfl (.inl rfl)
  | number n => exact .scalar rfl rfl (.inl rfl)
  | text s => exact .scalar rfl rfl (.inl rfl)
  | array xs ih =>
    refine .array rfl fun i x x' hx hx' => ?_
    obtain rfl := Option.some.inj (hx.symm.trans hx')
    exact ih x (List.mem_of_getElem? hx)
  | map es ih =>
    refine .map (List.prefix_refl _) (fun i e e' he he' => ?_) fun i e' hi he' => ?_
    · obtain rfl := Option.some.inj (he.symm.trans he')
      exact ih e (List.mem_of_getElem? he)
    · rw [List.getElem?_eq_none hi] at he'
      cases he'

theorem Grows.text_right {t : Tree} {s : String} (h : Grows (.text s) t) : ∃ s', t = .text s' := by
  cases h with
  | scalar _ _ hk =>
    cases t <;> simp_all [kind]

theorem Entries.length_le_of_keys {es es' : Entries Tree} (h : Entries.keys es <+: Entries.keys es') :
    es.length ≤ es'.length := by
  simpa [Entries.keys] using h.length_le

theorem Grows.trans {t u v : Tree} (h : Grows t u) (h' : Grows u v) : Grows t v := by
  induction h generalizing v with
  | scalar hs hs' hk =>
    cases h' with
    | scalar _ hs'' hk' =>
      refine .scalar hs hs'' ?_
      rcases hk' with hk' | hk'
      · rw [hk']
        exact hk
      · exact .inr hk'
    | array => cases hs'
    | map => cases hs'
  | @array xs xs' hlen h ih =>
    cases h' with
    | scalar hs => cases hs
    | @array _ xs'' hlen' h' =>
      refine .array (hlen'.trans hlen) fun i x x'' hx hx'' => ?_
      have hi : i < xs'.length := by
        rw [hlen]
        exact (List.getElem?_eq_some_iff.mp hx).1
      have hx' := List.getElem?_eq_getElem hi
      exact ih i x _ hx hx' (h' i _ x'' hx' hx'')
  | @map es es' hkeys h hnew ih =>
    cases h' with
    | scalar hs => cases hs
    | @map _ es'' hkeys' h' hnew' =>
      refine .map (hkeys.trans hkeys') (fun i e e'' he he'' => ?_) fun i e'' hi he'' => ?_
      · have hi : i < es'.length :=
          Nat.lt_of_lt_of_le (List.getElem?_eq_some_iff.mp he).1 (Entries.length_le_of_keys hkeys)
        have he' := List.getElem?_eq_getElem hi
        exact ih i e _ he he' (h' i _ e'' he' he'')
      · by_cases hi' : i < es'.length
        · -- new in the first step, and a string that was kept or written over in the second
          have he' := List.getElem?_eq_getElem hi'
          obtain ⟨s, hs⟩ := hnew i _ hi he'
          have hg := h' i _ e'' he' he''
          rw [hs] at hg
          exact hg.text_right
        · exact hnew' i e'' (Nat.le_of_not_lt hi') he''

theorem rescalar_kind {u : Tree} (h : u.isScalar = true) (text : String) :
    (u.rescalar text).isScalar = true ∧
      ((u.rescalar text).kind = u.kind ∨ (u.rescalar text).kind = .string) := by
  cases u with
  | number n =>
    simp only [rescalar]
    cases Number.read? text with
    | none => exact ⟨rfl, .inr rfl⟩
    | some m => exact ⟨rfl, .inl rfl⟩
  | bool b =>
    simp only [rescalar]
    split
    · exact ⟨rfl, .inl rfl⟩
    · split
      · exact ⟨rfl, .inl rfl⟩
      · exact ⟨rfl, .inr rfl⟩
  | null => exact ⟨rfl, .inr rfl⟩
  | text s => exact ⟨rfl, .inl rfl⟩
  | array xs => cases h
  | map es => cases h

theorem isScalar_of_overwrite {text : String} {u u' : Tree} {changed : Bool}
    (h : u.overwrite text = .ok (u', changed)) : u.isScalar = true ∧ u'.isScalar = true := by
  rcases overwrite_cases h with ⟨hu, rfl, -⟩ | ⟨current, hu, -, rfl, -⟩
  · have hs : u'.isScalar = true := by simp [isScalar, hu]
    exact ⟨hs, hs⟩
  · have hs : u.isScalar = true := by simp [isScalar, hu]
    exact ⟨hs, (rescalar_kind hs text).1⟩

theorem Grows.overwrite {text : String} {u u' : Tree} {changed : Bool}
    (h : u.overwrite text = .ok (u', changed)) : Grows u u' := by
  rcases overwrite_cases h with ⟨-, rfl, -⟩ | ⟨current, hu, -, rfl, -⟩
  · exact .refl u'
  · have hs : u.isScalar = true := by simp [isScalar, hu]
    have hr := rescalar_kind hs text
    exact .scalar hs hr.1 hr.2

theorem Grows.addEntry (es : Entries Tree) (name text : String) :
    Grows (.map es) (.map (es ++ [(name, .text text)])) := by
  refine .map (by simp [Entries.keys]) (fun i e e' he he' => ?_) fun i e' hi he' => ?_
  · rw [List.getElem?_append_left (List.getElem?_eq_some_iff.mp he).1, he] at he'
    obtain rfl := Option.some.inj he'
    exact .refl e.2
  · rw [List.getElem?_append_right hi] at he'
    obtain rfl : e' = (name, .text text) := by simpa using List.mem_of_getElem? he'
    exact ⟨text, rfl⟩

theorem Grows.setChild {t c c' : Tree} {s : Segment} (h : t.child? s = some c) (hg : Grows c c') :
    Grows t (t.setChild s c') := by
  cases t with
  | map es =>
    cases s with
    | index i => cases h
    | key name =>
      obtain ⟨j, hj, hput⟩ := Entries.put_eq_set h c'
      have hm : name ∈ Entries.keys es := List.mem_map.mpr ⟨_, List.mem_of_getElem? hj, rfl⟩
      refine .map ?_ (fun i e e' he he' => ?_) fun i e' hi he' => ?_
      · simp only [Entries.keys_put_of_mem hm, List.prefix_refl]
      · rw [hput] at he'
        rcases getElem?_set_cases hj he he' with rfl | ⟨rfl, rfl⟩
        · exact .refl e'.2
        · exact hg
      · rw [hput, List.getElem?_eq_none (by simpa using hi)] at he'
        cases he'
  | array xs =>
    cases s with
    | key name => cases h
    | index j =>
      refine .array (by simp) fun i x x' hx hx' => ?_
      rcases getElem?_set_cases h hx hx' with rfl | ⟨rfl, rfl⟩
      · exact .refl x'
      · exact hg
  | _ => cases h

theorem Grows.replaceAt {t u u' : Tree} {l : Location} (h : t.get? l = some u) (hg : Grows u u') :
    Grows t (t.replaceAt l u') := by
  induction l generalizing t with
  | nil =>
    obtain rfl : t = u := by simpa using h
    exact hg
  | cons s l ih =>
    obtain ⟨c, hc, hl⟩ := exists_child_of_get? h
    rw [replaceAt_cons hc]
    exact .setChild hc (ih hl)

theorem child?_of_isScalar {t : Tree} (h : t.isScalar = true) (s : Segment) : t.child? s = none := by
  cases t with
  | array xs => cases h
  | map es => cases h
  | _ => rfl

theorem Grows.child? {t t' c : Tree} {s : Segment} (h : Grows t t') (hc : t.child? s = some c) :
    ∃ c', t'.child? s = some c' ∧ Grows c c' := by
  cases h with
  | scalar hs =>
    rw [child?_of_isScalar hs] at hc
    cases hc
  | @array xs xs' hlen h =>
    cases s with
    | key name => cases hc
    | index i =>
      have hx : xs[i]? = some c := hc
      have hi : i < xs'.length := by
        rw [hlen]
        exact (List.getElem?_eq_some_iff.mp hx).1
      have hx' := List.getElem?_eq_getElem hi
      exact ⟨_, hx', h i c _ hx hx'⟩
  | @map es es' hkeys h =>
    cases s with
    | index i => cases hc
    | key name =>
      obtain ⟨j, c', hj, hj', hget⟩ := Entries.get?_of_prefix hkeys hc
      exact ⟨c', hget, h j _ _ hj hj'⟩

/-- A node that was there still is, at the same location. -/
theorem Grows.get? {t t' u : Tree} {l : Location} (h : Grows t t') (hu : t.get? l = some u) :
    ∃ u', t'.get? l = some u' ∧ Grows u u' := by
  induction l generalizing t t' with
  | nil =>
    obtain rfl : t = u := by simpa using hu
    exact ⟨t', rfl, h⟩
  | cons s l ih =>
    obtain ⟨c, hc, hl⟩ := exists_child_of_get? hu
    obtain ⟨c', hc', hg⟩ := h.child? hc
    rw [get?_cons hc']
    exact ih hg hl

mutual

/-- The number of entries of all maps in a tree. -/
def keyCount : Tree → Nat
  | .array xs => keyCountOfItems xs
  | .map es => keyCountOfEntries es
  | _ => 0

def keyCountOfItems : List Tree → Nat
  | [] => 0
  | x :: xs => x.keyCount + keyCountOfItems xs

def keyCountOfEntries : List (String × Tree) → Nat
  | [] => 0
  | (_, v) :: es => v.keyCount + 1 + keyCountOfEntries es

end

theorem keyCountOfItems_set {xs : List Tree} {j : Nat} {c : Tree} (h : xs[j]? = some c) (c' : Tree) :
    keyCountOfItems (xs.set j c') + c.keyCount = keyCountOfItems xs + c'.keyCount := by
  induction xs generalizing j with
  | nil => simp at h
  | cons x xs ih =>
    cases j with
    | zero =>
      obtain rfl : x = c := by simpa using h
      simp only [List.set_cons_zero, keyCountOfItems]
      omega
    | succ j =>
      have hh := ih (j := j) (by simpa using h)
      simp only [List.set_cons_succ, keyCountOfItems]
      omega

theorem keyCountOfEntries_put {es : Entries Tree} {name : String} {c : Tree}
    (h : Entries.get? name es = some c) (c' : Tree) :
    keyCountOfEntries (Entries.put name c' es) + c.keyCount =
      keyCountOfEntries es + c'.keyCount := by
  induction es with
  | nil => cases h
  | cons e es ih =>
    obtain ⟨k, v⟩ := e
    by_cases hk : k = name
    · obtain rfl : v = c := by simpa [Entries.get?, hk] using h
      simp only [Entries.put, hk, if_true, keyCountOfEntries]
      omega
    · have hh := ih (by simpa [Entries.get?, hk] using h)
      simp only [Entries.put, hk, if_false, keyCountOfEntries]
      omega

theorem keyCountOfEntries_append (es es' : List (String × Tree)) :
    keyCountOfEntries (es ++ es') = keyCountOfEntries es + keyCountOfEntries es' := by
  induction es with
  | nil => simp [keyCountOfEntries]
  | cons e es ih =>
    simp only [List.cons_append, keyCountOfEntries, ih]
    omega

theorem keyCount_setChild {t c : Tree} {s : Segment} (h : t.child? s = some c) (c' : Tree) :
    (t.setChild s c').keyCount + c.keyCount = t.keyCount + c'.keyCount := by
  cases t with
  | map es =>
    cases s with
    | key name => simpa only [setChild, keyCount] using keyCountOfEntries_put h c'
    | index i => cases h
  | array xs =>
    cases s with
    | key name => cases h
    | index i => simpa only [setChild, keyCount] using keyCountOfItems_set h c'
  | _ => cases h

/-- Putting another node in a place adds as many keys as that node has more. -/
theorem keyCount_replaceAt {t u : Tree} {l : Location} (h : t.get? l = some u) (u' : Tree) :
    (t.replaceAt l u').keyCount + u.keyCount = t.keyCount + u'.keyCount := by
  induction l generalizing t with
  | nil =>
    obtain rfl : t = u := by simpa using h
    exact Nat.add_comm _ _
  | cons s l ih =>
    obtain ⟨c, hc, hl⟩ := exists_child_of_get? h
    have hchild := keyCount_setChild hc (c.replaceAt l u')
    have hh := ih hl
    rw [replaceAt_cons hc]
    omega

theorem keyCount_of_isScalar {t : Tree} (h : t.isScalar = true) : t.keyCount = 0 := by
  cases t with
  | array xs => cases h
  | map es => cases h
  | _ => rfl

theorem keyCount_overwrite {text : String} {u u' : Tree} {changed : Bool}
    (h : u.overwrite text = .ok (u', changed)) : u'.keyCount = u.keyCount := by
  obtain ⟨hu, hu'⟩ := isScalar_of_overwrite h
  rw [keyCount_of_isScalar hu, keyCount_of_isScalar hu']

end Tree

end FieldPatch
