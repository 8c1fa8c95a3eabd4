import FieldPatch.Proofs.Except
import FieldPatch.Proofs.Traversal
import FieldPatch.Proofs.Tree.Entries
import FieldPatch.Proofs.Yaml.KeyText
import FieldPatch.Proofs.Yaml.Occurrence

/-! What becomes of the entries of a YAML value in its tree. -/

namespace FieldPatch.Yaml

namespace Value

/-- The tree has all of the value: items for items, entries for entries, in their order, and the
content of what is tagged. -/
inductive Keeps : Value → Tree → Prop
  | scalar {s : Scalar} {t : Tree} (h : s.toTree = .ok t) : Keeps (.scalar s) t
  | sequence {xs : List Value} {ts : List Tree} (h : List.Forall₂ Keeps xs ts) :
    Keeps (.sequence xs) (.array ts)
  | mapping {es : List (Value × Value)} {fs : Entries Tree}
    (hkeys : es.map (fun e => keyText e.1) = (Entries.keys fs).map .ok)
    (h : List.Forall₂ (fun e f => Keeps e.2 f.2) es fs) : Keeps (.mapping es) (.map fs)
  | tagged {tag : String} {v : Value} {t : Tree} (h : Keeps v t) : Keeps (.tagged tag v) t

theorem toTrees_eq_mapM (vs : List Value) : toTrees vs = vs.mapM toTree :=
  eq_mapM toTrees rfl (fun _ _ => rfl) vs

theorem toPairs_eq_mapM (es : List (Value × Value)) :
    toPairs es = es.mapM fun e => keyText e.1 >>= fun k => (toTree e.2).map (k, ·) := by
  refine eq_mapM toPairs rfl (fun e es => ?_) es
  rw [toPairs]
  cases keyText e.1 with
  | error e => rfl
  | ok k => cases toTree e.2 <;> rfl

theorem toTree_sequence {xs : List Value} {t : Tree} (h : toTree (.sequence xs) = .ok t) :
    ∃ ts, t = .array ts ∧ List.Forall₂ (fun x u => toTree x = .ok u) xs ts := by
  rw [toTree, toTrees_eq_mapM] at h
  obtain ⟨ts, hts, hr⟩ := ok_of_bind h
  exact ⟨ts, (Except.ok.inj hr).symm, mapM_eq_ok_iff.mp hts⟩

theorem toTree_mapping {es : List (Value × Value)} {t : Tree} (h : toTree (.mapping es) = .ok t) :
    ∃ pairs : Entries Tree, t = .map (Entries.ofPairs pairs) ∧
      es.map (fun e => keyText e.1) = (Entries.keys pairs).map .ok ∧
      List.Forall₂ (fun e p => toTree e.2 = .ok p.2) es pairs := by
  rw [toTree, toPairs_eq_mapM] at h
  obtain ⟨pairs, hpairs, hr⟩ := ok_of_bind h
  refine ⟨pairs, (Except.ok.inj hr).symm, ?_⟩
  have hall := mapM_eq_ok_iff.mp hpairs
  have hentry : ∀ (e : Value × Value) (p : String × Tree),
      (keyText e.1 >>= fun k => (toTree e.2).map (k, ·)) = .ok p →
        keyText e.1 = .ok p.1 ∧ toTree e.2 = .ok p.2 := by
    intro e p hp
    obtain ⟨k, hk, hm⟩ := ok_of_bind hp
    obtain ⟨u, hu, rfl⟩ := ok_of_map hm
    exact ⟨hk, hu⟩
  constructor
  · have hkeys := hall.imp fun e p hp => (hentry e p hp).1
    rw [Entries.keys, List.map_map, ← List.forall₂_eq_eq_eq, List.forall₂_map_left_iff,
      List.forall₂_map_right_iff]
    exact hkeys
  · exact hall.imp fun e p hp => (hentry e p hp).2

theorem nodup_keyTexts_iff {es : List (Value × Value)} {keys : List String}
    (h : es.map (fun e => keyText e.1) = keys.map .ok) :
    (es.map fun e => keyText e.1).Nodup ↔ keys.Nodup := by
  rw [h]
  exact List.nodup_map_iff fun _ _ heq => Except.ok.inj heq

theorem keeps_iff_nodup_keyTexts {v : Value} {t : Tree} (h : v.toTree = .ok t) :
    Keeps v t ↔ ∀ es, Occurs (.mapping es) v → (es.map fun e => keyText e.1).Nodup := by
  induction v using Value.induction generalizing t with
  | scalar s =>
    rw [toTree] at h
    exact ⟨fun _ es hes => (by cases hes), fun _ => .scalar h⟩
  | sequence xs ih =>
    obtain ⟨ts, rfl, hts⟩ := toTree_sequence h
    constructor
    · intro hk es hes
      cases hk with
      | sequence hitems =>
        have hboth := List.Forall₂.mp (fun _ _ hu hk => And.intro hu hk) hts hitems
        cases hes with
        | item hx hes =>
          obtain ⟨u, -, hu, hk⟩ := exists_ok_of_forall₂ hboth hx
          exact (ih _ hx hu).mp hk es hes
    · intro hnodup
      have hitems : ∀ x ∈ xs, ∀ u, toTree x = .ok u → Keeps x u := fun x hx u hu =>
        (ih x hx hu).mpr fun es hes => hnodup es (.item hx hes)
      have hboth := (List.forall₂_and_left xs ts).mpr ⟨hitems, hts⟩
      exact .sequence (hboth.imp fun x u hc => hc.1 u hc.2)
  | mapping es ih =>
    obtain ⟨pairs, rfl, hkeys, hvals⟩ := toTree_mapping h
    constructor
    · intro hk
      cases hk with
      | mapping hkeys' hentries =>
        have hown : Entries.keys (Entries.ofPairs pairs) = Entries.keys pairs :=
          List.map_injective_iff.mpr (fun _ _ heq => Except.ok.inj heq) (hkeys'.symm.trans hkeys)
        have hnodup : (Entries.keys pairs).Nodup := hown ▸ Entries.nodup_keys_ofPairs pairs
        rw [Entries.ofPairs_eq_self_iff.mpr hnodup] at hentries
        have hboth := List.Forall₂.mp (fun _ _ hu hk => And.intro hu hk) hvals hentries
        intro fs hfs
        cases hfs with
        | root => exact (nodup_keyTexts_iff hkeys).mpr hnodup
        | entry he hfs =>
          obtain ⟨u, -, hu, hk⟩ := exists_ok_of_forall₂ hboth he
          exact (ih _ he hu).mp hk fs hfs
    · intro hnodup
      have hown := Entries.ofPairs_eq_self_iff.mpr ((nodup_keyTexts_iff hkeys).mp (hnodup es .root))
      have hentries : ∀ e ∈ es, ∀ u, toTree e.2 = .ok u → Keeps e.2 u := fun e he u hu =>
        (ih e he hu).mpr fun fs hfs => hnodup fs (.entry he hfs)
      have hboth := (List.forall₂_and_left es pairs).mpr ⟨hentries, hvals⟩
      rw [hown]
      exact .mapping hkeys (hboth.imp fun e p hc => hc.1 p.2 hc.2)
  | tagged tag v ih =>
    rw [toTree] at h
    constructor
    · intro hk es hes
      cases hk with
      | tagged hk =>
        cases hes with
        | content hes => exact (ih h).mp hk es hes
    · intro hnodup
      exact .tagged ((ih h).mpr fun es hes => hnodup es (.content hes))

theorem exists_toTree_of_occurs {v w : Value} {t : Tree} (hw : Occurs w v) (h : v.toTree = .ok t) :
    ∃ u, w.toTree = .ok u := by
  induction hw generalizing t with
  | root => exact ⟨t, h⟩
  | item hx _ ih =>
    obtain ⟨ts, -, hts⟩ := toTree_sequence h
    obtain ⟨u, -, hu⟩ := exists_ok_of_forall₂ hts hx
    exact ih hu
  | entry he _ ih =>
    obtain ⟨pairs, -, -, hvals⟩ := toTree_mapping h
    obtain ⟨p, -, hp⟩ := exists_ok_of_forall₂ hvals he
    exact ih hp
  | content _ ih =>
    rw [toTree] at h
    exact ih h

theorem exists_scalar_of_keyText {k : Value} {s : String} (h : keyText k = .ok s) :
    ∃ a : Scalar, k = .scalar a ∧ a.keyText = s := by
  cases k with
  | scalar a => exact ⟨a, rfl, Except.ok.inj h⟩
  | sequence xs => cases h
  | mapping es => cases h
  | tagged tag v => cases h

theorem exists_keyText_of_mem {es : List (Value × Value)} {t : Tree}
    (h : toTree (.mapping es) = .ok t) {e : Value × Value} (he : e ∈ es) :
    ∃ s, keyText e.1 = .ok s := by
  obtain ⟨pairs, -, hkeys, -⟩ := toTree_mapping h
  have hmem : keyText e.1 ∈ (Entries.keys pairs).map Except.ok :=
    hkeys ▸ List.mem_map_of_mem (f := fun e : Value × Value => keyText e.1) he
  obtain ⟨s, -, hs⟩ := List.mem_map.mp hmem
  exact ⟨s, hs.symm⟩

theorem exists_toTree_scalar {s : Scalar} (h : ∀ x, s = .float x → x.isFinite = true) :
    ∃ t, s.toTree = .ok t := by
  cases s with
  | float x =>
    have hx := h x rfl
    exact ⟨.number (.float x hx), by simp [Scalar.toTree, Number.ofFloat?, hx]⟩
  | _ => exact ⟨_, rfl⟩

/-- Nothing but a double that is not finite and a key that is no scalar is refused. -/
theorem exists_toTree_iff {v : Value} : (∃ t, v.toTree = .ok t) ↔
    (∀ x, Occurs (.scalar (.float x)) v → x.isFinite = true) ∧
    (∀ es, Occurs (.mapping es) v → ∀ e ∈ es, ∃ k, e.1 = .scalar k) := by
  constructor
  · rintro ⟨t, ht⟩
    constructor
    · intro x hx
      obtain ⟨u, hu⟩ := exists_toTree_of_occurs hx ht
      by_contra hinf
      rw [toTree, Scalar.toTree, Number.ofFloat?, dif_neg hinf] at hu
      cases hu
    · intro es hes e he
      obtain ⟨u, hu⟩ := exists_toTree_of_occurs hes ht
      obtain ⟨s, hs⟩ := exists_keyText_of_mem hu he
      obtain ⟨k, hk, -⟩ := exists_scalar_of_keyText hs
      exact ⟨k, hk⟩
  · rintro ⟨hfinite, hscalar⟩
    induction v using Value.induction with
    | scalar s =>
      obtain ⟨t, ht⟩ := exists_toTree_scalar (s := s) fun x hx => hfinite x (hx ▸ .root)
      exact ⟨t, by rw [toTree, ht]⟩
    | sequence xs ih =>
      obtain ⟨ts, hts⟩ := exists_forall₂ fun x hx => ih x hx
        (fun y hy => hfinite y (.item hx hy)) fun es hes => hscalar es (.item hx hes)
      exact ⟨.array ts, by rw [toTree, toTrees_eq_mapM, mapM_eq_ok_iff.mpr hts]; rfl⟩
    | mapping es ih =>
      have hentries : ∀ e ∈ es, ∃ p : String × Tree,
          (keyText e.1 >>= fun k => (toTree e.2).map (k, ·)) = .ok p := by
        intro e he
        obtain ⟨k, hk⟩ := hscalar es .root e he
        obtain ⟨u, hu⟩ := ih e he (fun y hy => hfinite y (.entry he hy)) fun fs hfs =>
          hscalar fs (.entry he hfs)
        exact ⟨(k.keyText, u), by rw [hk, hu]; rfl⟩
      obtain ⟨pairs, hpairs⟩ := exists_forall₂ hentries
      exact ⟨.map (Entries.ofPairs pairs),
        by rw [toTree, toPairs_eq_mapM, mapM_eq_ok_iff.mpr hpairs]; rfl⟩
    | tagged tag v ih =>
      obtain ⟨t, ht⟩ := ih (fun y hy => hfinite y (.content hy)) fun es hes =>
        hscalar es (.content hes)
      exact ⟨t, by rw [toTree, ht]⟩

/-- A key that is text has the text of a key that is none: `"80"` beside `80`. -/
def HasKeySpelled (es : List (Value × Value)) : Prop :=
  ∃ e ∈ es, ∃ f ∈ es, ∃ k : Scalar, e.1 = .scalar (.text k.keyText) ∧ f.1 = .scalar k ∧
    k.isText = false

theorem nodup_keyTexts_of_different {es : List (Value × Value)}
    (hscalar : ∀ e ∈ es, ∃ s, keyText e.1 = .ok s)
    (hdiff : es.Pairwise fun e f => f.1.same e.1 = false) (h : ¬ HasKeySpelled es) :
    (es.map fun e => keyText e.1).Nodup := by
  rw [List.Nodup, List.pairwise_map]
  refine hdiff.imp_of_mem fun {e f} he hf hne heq => ?_
  obtain ⟨s, hs⟩ := hscalar e he
  obtain ⟨a, ha, has⟩ := exists_scalar_of_keyText hs
  obtain ⟨b, hb, hbs⟩ := exists_scalar_of_keyText (heq ▸ hs)
  rw [ha, hb] at hne
  cases hat : a.isText with
  | false =>
    cases hbt : b.isText with
    | false =>
      have hsame : b.same a = true := Scalar.same_of_keyText_eq hbt hat (hbs.trans has.symm)
      exact absurd (hsame.symm.trans hne) (by decide)
    | true =>
      refine h ⟨f, hf, e, he, a, ?_, ha, hat⟩
      rw [hb, Scalar.eq_text_of_isText hbt, hbs, has]
  | true =>
    cases hbt : b.isText with
    | false =>
      refine h ⟨e, he, f, hf, b, ?_, hb, hbt⟩
      rw [ha, Scalar.eq_text_of_isText hat, has, hbs]
    | true =>
      have hsame : b.same a = true := by
        rw [Scalar.eq_text_of_isText hat, Scalar.eq_text_of_isText hbt, has, hbs]
        simp [Scalar.same]
      exact absurd (hsame.symm.trans hne) (by decide)

theorem not_hasKeySpelled_of_nodup {es : List (Value × Value)}
    (h : (es.map fun e => keyText e.1).Nodup) : ¬ HasKeySpelled es := by
  rintro ⟨e, he, f, hf, k, hek, hfk, hk⟩
  have heq : e = f := by
    apply List.inj_on_of_nodup_map h he hf
    rw [hek, hfk]
    rfl
  have htext : k = .text k.keyText := by
    rw [heq, hfk] at hek
    exact Value.scalar.inj hek
  rw [htext] at hk
  cases hk

theorem keeps_iff_not_hasKeySpelled {v : Value} {t : Tree} (hdiff : v.DifferentKeys)
    (h : v.toTree = .ok t) :
    Keeps v t ↔ ∀ es, Occurs (.mapping es) v → ¬ HasKeySpelled es := by
  rw [keeps_iff_nodup_keyTexts h]
  refine forall_congr' fun es => forall_congr' fun hes => ⟨not_hasKeySpelled_of_nodup, ?_⟩
  obtain ⟨u, hu⟩ := exists_toTree_of_occurs hes h
  exact nodup_keyTexts_of_different (fun e he => exists_keyText_of_mem hu he) (hdiff es hes)

/-- What becomes of a value without merge keys whose keys are different from each other: it is not
changed by merging, and its tree has all of its entries in their order, with their values, unless
in one of its mappings a text spells another key. -/
theorem kept_unless_key_spelled {v : Value} {t : Tree} (hmerge : v.NoMergeKeys)
    (hdiff : v.DifferentKeys) (h : v.toTree = .ok t) :
    v.merged = some v ∧ (Keeps v t ↔ ∀ es, Occurs (.mapping es) v → ¬ HasKeySpelled es) :=
  ⟨merged_eq_self hmerge, keeps_iff_not_hasKeySpelled hdiff h⟩

theorem eq_of_occurs_scalars {es fs : List (Value × Value)} (hes : ∀ e ∈ es, ∃ s, e.2 = .scalar s)
    (h : Occurs (.mapping fs) (.mapping es)) : fs = es := by
  cases h with
  | root => rfl
  | entry he h =>
    obtain ⟨s, hs⟩ := hes _ he
    rw [hs] at h
    cases h

theorem inRange_eighty : -0x8000000000000000 ≤ (80 : Int) ∧ (80 : Int) < 0x10000000000000000 := by
  decide

def ports : List (Value × Value) :=
  [(.scalar (.whole ⟨80, inRange_eighty⟩), .scalar (.text "http")),
    (.scalar (.text "admin"), .scalar (.bool true))]

theorem kept_unless_key_spelled_ports : ∃ t, (mapping ports).NoMergeKeys ∧
    (mapping ports).DifferentKeys ∧ (mapping ports).toTree = .ok t ∧ Keeps (.mapping ports) t := by
  have hscalars : ∀ e ∈ ports, ∃ s, e.2 = .scalar s := by simp [ports]
  have hmerge : (mapping ports).NoMergeKeys := by
    intro es hes
    rw [eq_of_occurs_scalars hscalars hes]
    decide
  have hdiff : (mapping ports).DifferentKeys := by
    intro es hes
    rw [eq_of_occurs_scalars hscalars hes]
    simp [ports, same, Scalar.same]
  have htree : (mapping ports).toTree = .ok (.map [("80", .text "http"),
      ("admin", .bool true)]) := by
    rfl
  refine ⟨_, hmerge, hdiff, htree, (kept_unless_key_spelled hmerge hdiff htree).2.mpr ?_⟩
  intro es hes
  rw [eq_of_occurs_scalars hscalars hes]
  rintro ⟨e, he, f, hf, k, hek, hfk, hk⟩
  simp only [ports, List.mem_cons, List.not_mem_nil, or_false] at he hf
  obtain rfl | rfl := hf
  · obtain rfl | rfl := he
    · cases hek
    · cases hfk
      exact absurd (Value.scalar.inj hek) (by decide)
  · cases hfk
    cases hk

def portTwice : List (Value × Value) :=
  [(.scalar (.whole ⟨80, inRange_eighty⟩), .scalar (.text "a")),
    (.scalar (.text "80"), .scalar (.text "b"))]

theorem entry_overwritten : ¬ ∀ v t, NoMergeKeys v → DifferentKeys v → v.toTree = .ok t →
    Keeps v t := by
  intro hkeeps
  have hscalars : ∀ e ∈ portTwice, ∃ s, e.2 = .scalar s := by simp [portTwice]
  have hmerge : (mapping portTwice).NoMergeKeys := by
    intro es hes
    rw [eq_of_occurs_scalars hscalars hes]
    decide
  have hdiff : (mapping portTwice).DifferentKeys := by
    intro es hes
    rw [eq_of_occurs_scalars hscalars hes]
    simp [portTwice, same, Scalar.same]
  have htree : (mapping portTwice).toTree = .ok (.map [("80", .text "b")]) := by
    rfl
  cases hkeeps _ _ hmerge hdiff htree with
  | mapping hkeys h =>
    have hlen := h.length_eq
    cases hlen

end Value

/-- The same of a document, whose keys are different because it was read. -/
theorem Document.tree_keeps_iff {d : Document} {v : Value} {t : Tree} (hv : d.value? = some v)
    (hmerge : v.NoMergeKeys) (h : d.tree = .ok t) :
    Value.Keeps v t ↔ ∀ es, Value.Occurs (.mapping es) v → ¬ Value.HasKeySpelled es := by
  rw [tree, hv, Option.bind_some, Value.merged_eq_self hmerge] at h
  exact Value.keeps_iff_not_hasKeySpelled (differentKeys_of_value? hv) h

end FieldPatch.Yaml
