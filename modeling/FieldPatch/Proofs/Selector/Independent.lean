import FieldPatch.Proofs.Selector.Set
import FieldPatch.Proofs.Selector.Stream
import FieldPatch.Proofs.Tree.Separate

/-! Writes at different places do not depend on each other. A write never moves what another
selector of fields and indices leads to, and never changes what a write there comes to. -/

namespace FieldPatch

/-- What writing over a node leaves there. A map or an array stays what it is. -/
def Tree.overwritten (text : String) (u : Tree) : Tree :=
  match u.overwrite text with
  | .ok (u', _) => u'
  | .error _ => u

theorem Tree.overwrite_of_not_scalar {u : Tree} (h : u.isScalar = false) (text : String) :
    u.overwrite text = .error (.typeMismatch "scalar" u.kind) := by
  have hn : u.scalarText = none := by simpa [isScalar] using h
  simp only [overwrite, hn]

theorem Tree.overwritten_of_not_scalar {u : Tree} (h : u.isScalar = false) (text : String) :
    u.overwritten text = u := by
  simp only [overwritten, overwrite_of_not_scalar h]

namespace Selector

theorem childOf_setChild_of_ne {t v : Tree} {d : DirectStep} {s s' : Segment}
    (h : d.childOf t = .ok (s, v)) (hne : s ≠ s') (u : Tree) :
    d.childOf (t.setChild s' u) = .ok (s, v) := by
  have hv : (t.setChild s' u).child? s = some v := by
    rw [Tree.child?_setChild_of_ne hne, child?_of_childOf h]
  cases d with
  | field name =>
    obtain ⟨es, rfl, rfl, he⟩ := childOf_field_ok h
    cases s' with
    | index i => exact h
    | key other =>
      have he' : Entries.get? name (Entries.put other u es) = some v := hv
      simp [DirectStep.childOf, Tree.setChild, he']
  | index i =>
    obtain ⟨xs, n, rfl, rfl, hn, -⟩ := childOf_index_ok h
    cases s' with
    | key name => exact h
    | index j => exact childOf_index_of_getElem? (by simpa using hn) hv

theorem descend_replaceAt_separate {t u v : Tree} {ds : List DirectStep} {l m : Location}
    (h : descend ds t = .ok (m, v)) (hs : Tree.Separate l m) (hu : t.get? l = some u) (x : Tree) :
    descend ds (t.replaceAt l x) = .ok (m, v) := by
  induction ds generalizing t l m with
  | nil =>
    cases h
    exact absurd List.nil_prefix hs.2
  | cons d ds ih =>
    obtain ⟨s, w, m, hw, hd, rfl⟩ := descend_cons_ok h
    obtain ⟨s', l, _, _, rfl, -⟩ := hs.exists_cons
    obtain ⟨c, hc, hl⟩ := Tree.exists_child_of_get? hu
    rw [Tree.replaceAt_cons hc]
    by_cases he : s' = s
    · subst he
      obtain rfl := Option.some.inj (hc.symm.trans (child?_of_childOf hw))
      have hstep := ih hd (Tree.separate_cons_iff.mp hs rfl) hl
      rw [descend_cons_of_child (childOf_setChild hw _), hstep]
      rfl
    · rw [descend_cons_of_child (childOf_setChild_of_ne hw (Ne.symm he) _), hd]
      rfl

theorem locate_replaceAt_separate {t u v : Tree} {e : Expression} {l m : Location}
    (hp : e.isPlain = true) (h : locate t e = .ok m) (hv : t.get? m = some v)
    (hs : Tree.Separate l m) (hu : t.get? l = some u) (x : Tree) :
    locate (t.replaceAt l x) e = .ok m ∧ (t.replaceAt l x).get? m = some v := by
  rw [locate_plain hp] at h
  obtain ⟨⟨m', w⟩, hd, rfl⟩ := ok_of_map h
  obtain rfl := Option.some.inj ((get?_of_descend hd).symm.trans hv)
  have hd' := descend_replaceAt_separate hd hs hu x
  rw [locate_plain hp, hd']
  exact ⟨rfl, get?_of_descend hd'⟩

section

variable {t u : Tree} {e : Expression} {l : Location}

theorem written_of_locate (text : String) (h : locate t e = .ok l) (hu : t.get? l = some u) :
    written text e t = t.replaceAt l (u.overwritten text) := by
  simp only [written, set_of_locate h hu, Tree.overwritten]
  cases u.overwrite text with
  | ok r => rfl
  | error err => exact (Tree.replaceAt_self hu).symm

theorem set_flag_of_locate (text : String) (h : locate t e = .ok l) (hu : t.get? l = some u) :
    (set text e t).map Prod.snd = (u.overwrite text).map Prod.snd := by
  rw [set_of_locate h hu]
  cases u.overwrite text <;> rfl

end

/-- Two writes to one tree, in either order: the tree behind both is the same, and what one of them
reports does not depend on whether the other one was there before. -/
structure WritesCommute (a : String) (d : Expression) (b : String) (e : Expression) (t : Tree) :
    Prop where
  tree : written b e (written a d t) = written a d (written b e t)
  first : (set a d (written b e t)).map Prod.snd = (set a d t).map Prod.snd
  second : (set b e (written a d t)).map Prod.snd = (set b e t).map Prod.snd

variable {t u v : Tree} {d e : Expression} {l m : Location} {a b : String}

theorem WritesCommute.symm (h : WritesCommute a d b e t) : WritesCommute b e a d t :=
  ⟨h.tree.symm, h.second, h.first⟩

theorem writesCommute_separate (hd : d.isPlain = true) (he : e.isPlain = true)
    (hl : locate t d = .ok l) (hm : locate t e = .ok m) (hu : t.get? l = some u)
    (hv : t.get? m = some v) (hs : Tree.Separate l m) : WritesCommute a d b e t := by
  obtain ⟨hm', hv'⟩ := locate_replaceAt_separate he hm hv hs hu (u.overwritten a)
  obtain ⟨hl', hu'⟩ := locate_replaceAt_separate hd hl hu hs.symm hv (v.overwritten b)
  have hwd := written_of_locate a hl hu
  have hwe := written_of_locate b hm hv
  constructor
  · rw [hwd, hwe, written_of_locate b hm' hv', written_of_locate a hl' hu']
    exact Tree.replaceAt_comm hs hu hv _ _
  · rw [hwe, set_flag_of_locate a hl' hu', set_flag_of_locate a hl hu]
  · rw [hwd, set_flag_of_locate b hm' hv', set_flag_of_locate b hm hv]

/-- Above another place there is a map or an array, before a write there and after it. -/
theorem writesCommute_below {s : Segment} {k : Location} (hd : d.isPlain = true)
    (hl : locate t d = .ok l) (hm : locate t e = .ok (l ++ s :: k)) (hu : t.get? l = some u)
    (hv : t.get? (l ++ s :: k) = some v) : WritesCommute a d b e t := by
  have hbelow : u.get? (s :: k) = some v := by
    simpa [Tree.get?_append, hu] using hv
  let w := u.replaceAt (s :: k) (v.overwritten b)
  have hw : w.get? (s :: k) = some (v.overwritten b) := Tree.get?_replaceAt_self hbelow _
  have hkind : w.kind = u.kind := Tree.kind_replaceAt_cons hbelow _
  have hscalar := Tree.isScalar_of_get?_cons hbelow
  have hscalar' := Tree.isScalar_of_get?_cons hw
  have hwe : written b e t = t.replaceAt l w := by
    rw [written_of_locate b hm hv, Tree.replaceAt_append hu]
  have hwd : written a d t = t := by
    rw [written_of_locate a hl hu, Tree.overwritten_of_not_scalar hscalar, Tree.replaceAt_self hu]
  have hl' : locate (t.replaceAt l w) d = .ok l := locate_replaceAt hd hl w
  have hu' : (t.replaceAt l w).get? l = some w := Tree.get?_replaceAt_self hu w
  constructor
  · rw [hwd, hwe, written_of_locate a hl' hu', Tree.overwritten_of_not_scalar hscalar',
      Tree.replaceAt_self hu']
  · rw [hwe, set_flag_of_locate a hl' hu', set_flag_of_locate a hl hu,
      Tree.overwrite_of_not_scalar hscalar, Tree.overwrite_of_not_scalar hscalar', hkind]
  · rw [hwd]

/-- Writes through fields and indices that lead to different places commute, whatever they have in
common on the way there and however they spell it. Both orders end in the same tree, and each write
reports what it reports alone, be it a flag or an error. -/
theorem writes_commute (hd : d.isPlain = true) (he : e.isPlain = true) (hl : locate t d = .ok l)
    (hm : locate t e = .ok m) (hne : l ≠ m) (a b : String) : WritesCommute a d b e t := by
  obtain ⟨u, -, hu, -⟩ := evaluate_of_locate hl
  obtain ⟨v, -, hv, -⟩ := evaluate_of_locate hm
  rcases Tree.separate_or_below hne with hs | ⟨s, k, rfl⟩ | ⟨s, k, rfl⟩
  · exact writesCommute_separate hd he hl hm hu hv hs
  · exact writesCommute_below hd hl hm hu hv
  · exact (writesCommute_below he hm hl hv hu).symm

def servers : Tree :=
  .map [("servers", .array [.map [("port", .text "80")], .map [("port", .text "443")]])]

def lastServer : Expression := .ofSteps ".servers[-1]" [.field "servers", .index (-1)]

def secondPort : Expression :=
  .ofSteps ".servers[1].port" [.field "servers", .index 1, .field "port"]

theorem writes_commute_servers :
    lastServer.isPlain = true ∧ secondPort.isPlain = true ∧
      locate servers lastServer = .ok [.key "servers", .index 1] ∧
      locate servers secondPort = .ok [.key "servers", .index 1, .key "port"] ∧
      WritesCommute "none" lastServer "8443" secondPort servers := by
  have hl : locate servers lastServer = .ok [.key "servers", .index 1] := rfl
  have hm : locate servers secondPort = .ok [.key "servers", .index 1, .key "port"] := rfl
  exact ⟨rfl, rfl, hl, hm, writes_commute rfl rfl hl hm (by decide) "none" "8443"⟩

end Selector

end FieldPatch
