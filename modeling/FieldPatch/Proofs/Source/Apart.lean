import FieldPatch.Proofs.Source.Filter
import FieldPatch.Proofs.Traversal
import FieldPatch.Source.Revision

/-! The documents of a stream keep apart: in a revision each of them goes through the changes as if
there were no other. This is shown of one change and carried over to all of them. -/

namespace FieldPatch

def Step.flag? (i : Nat) : Step → Option Bool
  | .passed p => p.flags[i]?
  | _ => none

/-- Whether change `k` altered document `i`; none if it was not carried out there. -/
def Revision.flag? (r : Revision) (k i : Nat) : Option Bool := r.steps[k]?.bind (Step.flag? i)

theorem Step.changes_ne_zero_iff (s : Step) : s.changes ≠ 0 ↔ ∃ i, s.flag? i = some true := by
  cases s with
  | passed p =>
    show p.flags.count true ≠ 0 ↔ ∃ i : Nat, p.flags[i]? = some true
    rw [← List.mem_iff_getElem?, ← Nat.pos_iff_ne_zero, List.count_pos_iff]
  | otherTag | otherFile => simp [Step.changes, Step.flag?]

theorem Revision.changes_ne_zero_iff (r : Revision) :
    r.changes ≠ 0 ↔ ∃ k i, r.flag? k i = some true := by
  have hmem : r.changes ≠ 0 ↔ ∃ s ∈ r.steps, s.changes ≠ 0 := by
    rw [Revision.changes]
    induction r.steps with
    | nil => simp
    | cons s steps ih =>
      simp only [List.foldr_cons, List.mem_cons, exists_eq_or_imp, ← ih]
      omega
  simp only [hmem, Step.changes_ne_zero_iff, List.mem_iff_getElem?, Revision.flag?,
    Option.bind_eq_some_iff]
  grind

theorem Pass.length_documents (change : Tree → Except Error (Tree × Bool)) (ts : List Tree) :
    (Pass.over change ts).documents.length = ts.length := by
  induction ts with
  | nil => rfl
  | cons t ts ih =>
    cases hc : change t with
    | error e => simp [Pass.over, hc]
    | ok r => simpa [Pass.over, hc] using ih

theorem Pass.over_of_none {change : Tree → Except Error (Tree × Bool)} {ts : List Tree}
    (h : (Pass.over change ts).failure = none) {i : Nat} {t : Tree} (ht : ts[i]? = some t) :
    ∃ t' changed, change t = .ok (t', changed) ∧ (Pass.over change ts).documents[i]? = some t' ∧
      (Pass.over change ts).flags[i]? = some changed := by
  induction ts generalizing i with
  | nil => simp at ht
  | cons u us ih =>
    cases hc : change u with
    | error e => simp [Pass.over, hc] at h
    | ok r =>
      simp only [Pass.over, hc] at h ⊢
      cases i with
      | zero =>
        obtain rfl : u = t := by simpa using ht
        exact ⟨r.1, r.2, hc, rfl, rfl⟩
      | succ i => exact ih h (by simpa using ht)

/-- A change fails at one document. Those before it are changed, the others are not. -/
theorem Pass.over_of_failure {change : Tree → Except Error (Tree × Bool)} {ts : List Tree}
    {e : Error} (h : (Pass.over change ts).failure = some e) :
    ∃ j < ts.length, ∀ i t, ts[i]? = some t →
      (i < j → ∃ t' changed, change t = .ok (t', changed) ∧
        (Pass.over change ts).documents[i]? = some t') ∧
      (j ≤ i → (Pass.over change ts).documents[i]? = some t) ∧
      (i = j → change t = .error e) := by
  induction ts with
  | nil => simp [Pass.over] at h
  | cons u us ih =>
    cases hc : change u with
    | error e' =>
      obtain rfl : e' = e := by simpa [Pass.over, hc] using h
      refine ⟨0, by simp, fun i t ht => ⟨by omega, fun _ => by simpa [Pass.over, hc] using ht, ?_⟩⟩
      rintro rfl
      obtain rfl : u = t := by simpa using ht
      exact hc
    | ok r =>
      simp only [Pass.over, hc] at h ⊢
      obtain ⟨j, hj, hh⟩ := ih h
      refine ⟨j + 1, by simpa using hj, ?_⟩
      intro i t ht
      cases i with
      | zero =>
        obtain rfl : u = t := by simpa using ht
        exact ⟨fun _ => ⟨r.1, r.2, hc, rfl⟩, by omega, by omega⟩
      | succ i =>
        obtain ⟨hlt, hle, he⟩ := hh i t (by simpa using ht)
        exact ⟨fun hi => hlt (by omega), fun hi => hle (by omega), fun hi => he (by omega)⟩

section

variable (w : World) (ctx : Context) (tag : Option String) (file : String)

/-- One change on one document: what becomes of the document, and whether it changed. A change that
is for another run or another file says nothing of that. -/
def Order.onDocument (o : Order) (t : Tree) : Except Error (Tree × Option Bool) :=
  if o.isForTag tag && o.isForFile file then
    (o.source.change w ctx o.documents o.key t).map fun r => (r.1, some r.2)
  else .ok (t, none)

/-- A document taken alone through all changes, with what each of them says of it. -/
def alone : List Order → Tree → Except Error (Tree × List (Option Bool))
  | [], t => .ok (t, [])
  | o :: os, t => do
    let r ← o.onDocument w ctx tag file t
    (alone os r.1).map fun s => (s.1, r.2 :: s.2)

/-- Of all pairs of a change and a document, change by change, the first that fails is that of
change `k` and document `j`, and it fails with `e`. -/
structure FailsFirst (orders : List Order) (docs : List Tree) (k j : Nat) (e : Error) : Prop where
  changes_before : ∀ t ∈ docs, ∃ r, alone w ctx tag file (orders.take k) t = .ok r
  documents_before : ∀ i < j, ∀ t, docs[i]? = some t →
    ∃ r, alone w ctx tag file (orders.take (k + 1)) t = .ok r
  fails : ∃ o t u flags, orders[k]? = some o ∧ docs[j]? = some t ∧
    alone w ctx tag file (orders.take k) t = .ok (u, flags) ∧
    o.onDocument w ctx tag file u = .error e

/-- What is left of the documents once the pair of change `k` and document `j` has failed: that
change is in the ones before `j`, and in no others. -/
def LeftAt (orders : List Order) (docs final : List Tree) (k j : Nat) : Prop :=
  ∀ (i : Nat) t, docs[i]? = some t →
    ∃ u flags, final[i]? = some u ∧
      alone w ctx tag file (orders.take (if i < j then k + 1 else k)) t = .ok (u, flags)

end

section

variable {w : World} {ctx : Context} {tag : Option String} {file : String} {o : Order}
  {orders : List Order} {docs : List Tree} {t u : Tree} {flag : Option Bool}
  {flags : List (Option Bool)} {r : Tree × List (Option Bool)} {k k' j j' : Nat} {e e' : Error}

theorem alone_cons (h : o.onDocument w ctx tag file t = .ok (u, flag)) :
    alone w ctx tag file (o :: orders) t =
      (alone w ctx tag file orders u).map fun s => (s.1, flag :: s.2) := by
  rw [alone, h]
  rfl

theorem alone_cons_of_ok (h : o.onDocument w ctx tag file t = .ok (u, flag))
    (ha : alone w ctx tag file orders u = .ok r) :
    alone w ctx tag file (o :: orders) t = .ok (r.1, flag :: r.2) := by
  rw [alone_cons h, ha]
  rfl

theorem alone_singleton (h : o.onDocument w ctx tag file t = .ok (u, flag)) :
    alone w ctx tag file [o] t = .ok (u, [flag]) := by
  rw [alone_cons h]
  rfl

theorem exists_of_alone_cons (h : alone w ctx tag file (o :: orders) t = .ok r) :
    ∃ u flag flags, o.onDocument w ctx tag file t = .ok (u, flag) ∧
      alone w ctx tag file orders u = .ok (r.1, flags) := by
  obtain ⟨⟨u, flag⟩, hu, h⟩ := ok_of_bind h
  obtain ⟨r', hr', rfl⟩ := ok_of_map h
  exact ⟨u, flag, r'.2, hu, hr'⟩

theorem exists_alone_take (k : Nat) (h : alone w ctx tag file orders t = .ok r) :
    ∃ r', alone w ctx tag file (orders.take k) t = .ok r' := by
  induction orders generalizing t r k with
  | nil => exact ⟨r, by rwa [List.take_nil]⟩
  | cons o orders ih =>
    cases k with
    | zero => exact ⟨(t, []), rfl⟩
    | succ k =>
      obtain ⟨u, flag, flags, hu, ha⟩ := exists_of_alone_cons h
      obtain ⟨r', hr'⟩ := ih k ha
      exact ⟨(r'.1, flag :: r'.2), alone_cons_of_ok hu hr'⟩

theorem exists_alone_take_of_le (hk : k ≤ k')
    (h : ∃ r, alone w ctx tag file (orders.take k') t = .ok r) :
    ∃ r, alone w ctx tag file (orders.take k) t = .ok r := by
  obtain ⟨r, hr⟩ := h
  have htake := exists_alone_take k hr
  rwa [List.take_take, Nat.min_eq_left hk] at htake

theorem alone_take_succ_of_error (ho : orders[k]? = some o)
    (ha : alone w ctx tag file (orders.take k) t = .ok (u, flags))
    (he : o.onDocument w ctx tag file u = .error e) :
    alone w ctx tag file (orders.take (k + 1)) t = .error e := by
  induction orders generalizing t flags k with
  | nil => cases ho
  | cons o' orders ih =>
    cases k with
    | zero =>
      cases ho
      cases ha
      show alone w ctx tag file [o] _ = _
      rw [alone, he]
      rfl
    | succ k =>
      obtain ⟨v, flag, flags', hv, ha'⟩ := exists_of_alone_cons ha
      show alone w ctx tag file (o' :: orders.take (k + 1)) t = _
      rw [alone_cons hv, ih ho ha']
      rfl

namespace FailsFirst

/-- The document of the failing pair does not get through that change, and so no further. -/
theorem stops (h : FailsFirst w ctx tag file orders docs k j e) :
    ∃ t, docs[j]? = some t ∧ alone w ctx tag file (orders.take (k + 1)) t = .error e ∧
      ∀ k' > k, ¬ ∃ r, alone w ctx tag file (orders.take k') t = .ok r := by
  obtain ⟨o, t, u, flags, ho, ht, ha, he⟩ := h.fails
  have hstop := alone_take_succ_of_error ho ha he
  refine ⟨t, ht, hstop, fun k' hk hr => ?_⟩
  obtain ⟨r, hr⟩ := exists_alone_take_of_le hk hr
  rw [hstop] at hr
  cases hr

theorem exists_stopped (h : FailsFirst w ctx tag file orders docs k j e) :
    ∃ t ∈ docs, ¬ ∃ r, alone w ctx tag file orders t = .ok r := by
  obtain ⟨t, ht, -, hno⟩ := h.stops
  refine ⟨t, List.mem_of_getElem? ht, fun ⟨r, hr⟩ => ?_⟩
  exact hno (k + 1) (Nat.lt_succ_self k) (exists_alone_take (k + 1) hr)

theorem le (h : FailsFirst w ctx tag file orders docs k j e)
    (h' : FailsFirst w ctx tag file orders docs k' j' e') : k' ≤ k := by
  by_contra hlt
  obtain ⟨t, ht, -, hno⟩ := h.stops
  exact hno k' (Nat.lt_of_not_le hlt) (h'.changes_before t (List.mem_of_getElem? ht))

theorem document_le (h : FailsFirst w ctx tag file orders docs k j e)
    (h' : FailsFirst w ctx tag file orders docs k j' e') : j' ≤ j := by
  by_contra hlt
  obtain ⟨t, ht, -, hno⟩ := h.stops
  exact hno (k + 1) (Nat.lt_succ_self k) (h'.documents_before j (Nat.lt_of_not_le hlt) t ht)

theorem unique (h : FailsFirst w ctx tag file orders docs k j e)
    (h' : FailsFirst w ctx tag file orders docs k' j' e') : k = k' ∧ j = j' ∧ e = e' := by
  obtain rfl := Nat.le_antisymm (h'.le h) (h.le h')
  obtain rfl := Nat.le_antisymm (h'.document_le h) (h.document_le h')
  obtain ⟨t, ht, he, -⟩ := h.stops
  obtain ⟨t', ht', he', -⟩ := h'.stops
  obtain rfl := Option.some.inj (ht.symm.trans ht')
  exact ⟨rfl, rfl, Except.error.inj (he.symm.trans he')⟩

end FailsFirst

/-- A change is passed over, whatever the documents are, or it goes over all of them. -/
theorem Order.carryOut_cases (o : Order) (w : World) (ctx : Context) (tag : Option String)
    (file : String) :
    (∃ s : Step, s.failure? = none ∧ (∀ i, s.flag? i = none) ∧ (∀ docs, s.documents docs = docs) ∧
      (∀ docs, o.carryOut w ctx tag file docs = s) ∧
      ∀ t, o.onDocument w ctx tag file t = .ok (t, none)) ∨
    (∀ docs, o.carryOut w ctx tag file docs =
      .passed (Pass.over (o.source.change w ctx o.documents o.key) docs)) ∧
      ∀ t, o.onDocument w ctx tag file t =
        (o.source.change w ctx o.documents o.key t).map fun r => (r.1, some r.2) := by
  by_cases htag : o.isForTag tag = true
  · by_cases hfile : o.isForFile file = true
    · exact .inr ⟨fun docs => by simp [carryOut, htag, hfile],
        fun t => by simp [onDocument, htag, hfile]⟩
    · exact .inl ⟨.otherFile, rfl, fun _ => rfl, fun _ => rfl,
        fun docs => by simp [carryOut, htag, hfile], fun t => by simp [onDocument, hfile]⟩
  · exact .inl ⟨.otherTag, rfl, fun _ => rfl, fun _ => rfl,
      fun docs => by simp [carryOut, htag], fun t => by simp [onDocument, htag]⟩

theorem Order.length_carryOut (o : Order) (docs : List Tree) :
    ((o.carryOut w ctx tag file docs).documents docs).length = docs.length := by
  rcases o.carryOut_cases w ctx tag file with ⟨s, -, -, hdocs, hs, -⟩ | ⟨hs, -⟩
  · rw [hs, hdocs]
  · rw [hs]
    exact Pass.length_documents _ docs

theorem Order.carryOut_of_none (h : (o.carryOut w ctx tag file docs).failure? = none) {i : Nat}
    (ht : docs[i]? = some t) :
    ∃ u flag, o.onDocument w ctx tag file t = .ok (u, flag) ∧
      ((o.carryOut w ctx tag file docs).documents docs)[i]? = some u ∧
      (o.carryOut w ctx tag file docs).flag? i = flag := by
  rcases o.carryOut_cases w ctx tag file with ⟨s, -, hflag, hdocs, hs, hone⟩ | ⟨hs, hone⟩
  · rw [hs, hdocs, hflag]
    exact ⟨t, none, hone t, ht, rfl⟩
  · rw [hs] at h ⊢
    obtain ⟨u, changed, hc, hu, hflag⟩ := Pass.over_of_none h ht
    exact ⟨u, some changed, by rw [hone, hc]; rfl, hu, hflag⟩

/-- A change that fails does so at one document. Those before it have got through the change, and
it and those behind it are as they were. -/
theorem Order.carryOut_of_failure (h : (o.carryOut w ctx tag file docs).failure? = some e) :
    ∃ (j : Nat) (t : Tree), docs[j]? = some t ∧ o.onDocument w ctx tag file t = .error e ∧
      ∀ (i : Nat) t, docs[i]? = some t →
        (i < j → ∃ u flag, o.onDocument w ctx tag file t = .ok (u, flag) ∧
          ((o.carryOut w ctx tag file docs).documents docs)[i]? = some u) ∧
        (j ≤ i → ((o.carryOut w ctx tag file docs).documents docs)[i]? = some t) := by
  rcases o.carryOut_cases w ctx tag file with ⟨s, hnone, -, -, hs, -⟩ | ⟨hs, hone⟩
  · rw [hs, hnone] at h
    cases h
  · rw [hs] at h ⊢
    obtain ⟨j, hj, hh⟩ := Pass.over_of_failure h
    have ht := List.getElem?_eq_getElem hj
    refine ⟨j, docs[j], ht, by rw [hone, (hh j _ ht).2.2 rfl]; rfl, fun i t ht => ?_⟩
    obtain ⟨hlt, hle, -⟩ := hh i t ht
    refine ⟨fun hij => ?_, hle⟩
    obtain ⟨u, changed, hc, hu⟩ := hlt hij
    exact ⟨u, some changed, by rw [hone, hc]; rfl, hu⟩

theorem revise_cons_of_none (h : (o.carryOut w ctx tag file docs).failure? = none)
    (orders : List Order) :
    revise w ctx tag file (o :: orders) docs =
      let rest := revise w ctx tag file orders ((o.carryOut w ctx tag file docs).documents docs)
      ⟨o.carryOut w ctx tag file docs :: rest.steps, rest.documents, rest.failure⟩ := by
  simp only [revise, h]

theorem revise_cons_of_failure (h : (o.carryOut w ctx tag file docs).failure? = some e)
    (orders : List Order) :
    revise w ctx tag file (o :: orders) docs =
      ⟨[o.carryOut w ctx tag file docs], (o.carryOut w ctx tag file docs).documents docs,
        some e⟩ := by
  simp only [revise, h]

theorem length_revise (orders : List Order) (docs : List Tree) :
    (revise w ctx tag file orders docs).documents.length = docs.length := by
  induction orders generalizing docs with
  | nil => rfl
  | cons o orders ih =>
    cases hs : (o.carryOut w ctx tag file docs).failure? with
    | none =>
      rw [revise_cons_of_none hs]
      exact (ih _).trans (o.length_carryOut docs)
    | some e =>
      rw [revise_cons_of_failure hs]
      exact o.length_carryOut docs

theorem revise_of_none (h : (revise w ctx tag file orders docs).failure = none) {i : Nat}
    (ht : docs[i]? = some t) :
    ∃ u flags, alone w ctx tag file orders t = .ok (u, flags) ∧
      (revise w ctx tag file orders docs).documents[i]? = some u ∧
      ∀ k, (revise w ctx tag file orders docs).flag? k i = flags[k]?.join := by
  induction orders generalizing docs t with
  | nil => exact ⟨t, [], rfl, ht, fun _ => rfl⟩
  | cons o orders ih =>
    cases hs : (o.carryOut w ctx tag file docs).failure? with
    | none =>
      rw [revise_cons_of_none hs] at h ⊢
      obtain ⟨u, flag, hone, hu, hflag⟩ := Order.carryOut_of_none hs ht
      obtain ⟨v, flags, ha, hv, hflags⟩ := ih h hu
      refine ⟨v, flag :: flags, alone_cons_of_ok hone ha, hv, fun k => ?_⟩
      cases k with
      | zero => exact hflag
      | succ k => exact hflags k
    | some e =>
      rw [revise_cons_of_failure hs] at h
      cases h

theorem exists_alone_of_none (h : (revise w ctx tag file orders docs).failure = none)
    (ht : t ∈ docs) : ∃ r, alone w ctx tag file orders t = .ok r := by
  obtain ⟨i, hi⟩ := List.mem_iff_getElem?.mp ht
  obtain ⟨u, flags, ha, -⟩ := revise_of_none h hi
  exact ⟨(u, flags), ha⟩

/-- Each document has become what `o` makes of it. -/
def Follows (w : World) (ctx : Context) (tag : Option String) (file : String) (o : Order)
    (docs docs' : List Tree) : Prop :=
  docs'.length = docs.length ∧ ∀ (i : Nat) t, docs[i]? = some t →
    ∃ u flag, docs'[i]? = some u ∧ o.onDocument w ctx tag file t = .ok (u, flag)

theorem Order.follows_carryOut (h : (o.carryOut w ctx tag file docs).failure? = none) :
    Follows w ctx tag file o docs ((o.carryOut w ctx tag file docs).documents docs) := by
  refine ⟨o.length_carryOut docs, fun i t ht => ?_⟩
  obtain ⟨u, flag, hone, hu, -⟩ := carryOut_of_none h ht
  exact ⟨u, flag, hu, hone⟩

theorem FailsFirst.cons {docs' : List Tree} (hf : Follows w ctx tag file o docs docs')
    (h : FailsFirst w ctx tag file orders docs' k j e) :
    FailsFirst w ctx tag file (o :: orders) docs (k + 1) j e where
  changes_before t ht := by
    obtain ⟨i, hi⟩ := List.mem_iff_getElem?.mp ht
    obtain ⟨u, flag, hu, hone⟩ := hf.2 i t hi
    obtain ⟨r, hr⟩ := h.changes_before u (List.mem_of_getElem? hu)
    exact ⟨_, alone_cons_of_ok hone hr⟩
  documents_before i hij t ht := by
    obtain ⟨u, flag, hu, hone⟩ := hf.2 i t ht
    obtain ⟨r, hr⟩ := h.documents_before i hij u hu
    exact ⟨_, alone_cons_of_ok hone hr⟩
  fails := by
    obtain ⟨o', u, v, flags, ho, hu, ha, he⟩ := h.fails
    have hj : j < docs.length := hf.1 ▸ (List.getElem?_eq_some_iff.mp hu).1
    have ht := List.getElem?_eq_getElem hj
    obtain ⟨u', flag, hu', hone⟩ := hf.2 j _ ht
    rw [hu] at hu'
    cases hu'
    exact ⟨o', docs[j], v, flag :: flags, ho, ht, alone_cons_of_ok hone ha, he⟩

theorem LeftAt.cons {docs' final : List Tree} (hf : Follows w ctx tag file o docs docs')
    (h : LeftAt w ctx tag file orders docs' final k j) :
    LeftAt w ctx tag file (o :: orders) docs final (k + 1) j := by
  intro i t ht
  obtain ⟨u, flag, hu, hone⟩ := hf.2 i t ht
  obtain ⟨v, flags, hv, ha⟩ := h i u hu
  have hk : (if i < j then k + 1 + 1 else k + 1) = (if i < j then k + 1 else k) + 1 := by
    split <;> rfl
  rw [hk]
  exact ⟨v, flag :: flags, hv, alone_cons_of_ok hone ha⟩

theorem Order.failsFirst_carryOut (h : (o.carryOut w ctx tag file docs).failure? = some e)
    (orders : List Order) :
    ∃ j, FailsFirst w ctx tag file (o :: orders) docs 0 j e ∧
      LeftAt w ctx tag file (o :: orders) docs ((o.carryOut w ctx tag file docs).documents docs)
        0 j := by
  obtain ⟨j, t, ht, he, hh⟩ := carryOut_of_failure h
  refine ⟨j, ⟨fun t _ => ⟨(t, []), rfl⟩, fun i hij t ht => ?_, o, t, t, [], rfl, ht, rfl, he⟩,
    fun i t ht => ?_⟩
  · obtain ⟨u, flag, hu, -⟩ := (hh i t ht).1 hij
    exact ⟨_, alone_singleton hu⟩
  · by_cases hij : i < j
    · obtain ⟨u, flag, hu, hi⟩ := (hh i t ht).1 hij
      rw [if_pos hij]
      exact ⟨u, [flag], hi, alone_singleton hu⟩
    · rw [if_neg hij]
      exact ⟨t, [], (hh i t ht).2 (Nat.le_of_not_lt hij), rfl⟩

theorem revise_of_failure (h : (revise w ctx tag file orders docs).failure = some e) :
    ∃ k j, FailsFirst w ctx tag file orders docs k j e ∧
      LeftAt w ctx tag file orders docs (revise w ctx tag file orders docs).documents k j := by
  induction orders generalizing docs with
  | nil => cases h
  | cons o orders ih =>
    cases hs : (o.carryOut w ctx tag file docs).failure? with
    | none =>
      rw [revise_cons_of_none hs] at h ⊢
      obtain ⟨k, j, hfirst, hleft⟩ := ih h
      have hf := Order.follows_carryOut hs
      exact ⟨k + 1, j, hfirst.cons hf, hleft.cons hf⟩
    | some e' =>
      rw [revise_cons_of_failure hs] at h ⊢
      cases h
      obtain ⟨j, hfirst, hleft⟩ := Order.failsFirst_carryOut hs orders
      exact ⟨0, j, hfirst, hleft⟩

theorem FailsFirst.failure (h : FailsFirst w ctx tag file orders docs k j e) :
    (revise w ctx tag file orders docs).failure = some e ∧
      LeftAt w ctx tag file orders docs (revise w ctx tag file orders docs).documents k j := by
  cases hr : (revise w ctx tag file orders docs).failure with
  | none =>
    obtain ⟨t, ht, hno⟩ := h.exists_stopped
    exact absurd (exists_alone_of_none hr ht) hno
  | some e' =>
    obtain ⟨k', j', hfirst, hleft⟩ := revise_of_failure hr
    obtain ⟨rfl, rfl, rfl⟩ := h.unique hfirst
    exact ⟨rfl, hleft⟩

theorem failure_eq_none_iff :
    (revise w ctx tag file orders docs).failure = none ↔
      ∀ t ∈ docs, ∃ r, alone w ctx tag file orders t = .ok r := by
  refine ⟨fun h t ht => exists_alone_of_none h ht, fun h => ?_⟩
  cases hr : (revise w ctx tag file orders docs).failure with
  | none => rfl
  | some e =>
    obtain ⟨k, j, hfirst, -⟩ := revise_of_failure hr
    obtain ⟨t, ht, hno⟩ := hfirst.exists_stopped
    exact absurd (h t ht) hno

theorem Pass.length_flags_le (change : Tree → Except Error (Tree × Bool)) (ts : List Tree) :
    (Pass.over change ts).flags.length ≤ ts.length := by
  induction ts with
  | nil => exact Nat.le_refl 0
  | cons t ts ih =>
    cases hc : change t with
    | error e => simp [Pass.over, hc]
    | ok r => simpa [Pass.over, hc] using ih

theorem Order.flag?_carryOut_of_le {i : Nat} (h : docs.length ≤ i) (o : Order) :
    (o.carryOut w ctx tag file docs).flag? i = none := by
  rcases o.carryOut_cases w ctx tag file with ⟨s, -, hflag, -, hs, -⟩ | ⟨hs, -⟩
  · rw [hs, hflag]
  · rw [hs]
    exact List.getElem?_eq_none (Nat.le_trans (Pass.length_flags_le _ docs) h)

theorem flag?_revise_of_le {i : Nat} (h : docs.length ≤ i) (orders : List Order) (k : Nat) :
    (revise w ctx tag file orders docs).flag? k i = none := by
  induction orders generalizing docs k with
  | nil => rfl
  | cons o orders ih =>
    have hfirst : (o.carryOut w ctx tag file docs).flag? i = none := o.flag?_carryOut_of_le h
    cases hs : (o.carryOut w ctx tag file docs).failure? with
    | none =>
      rw [revise_cons_of_none hs]
      cases k with
      | zero => exact hfirst
      | succ k => exact ih (Nat.le_trans (Nat.le_of_eq (o.length_carryOut docs)) h) k
    | some e =>
      rw [revise_cons_of_failure hs]
      cases k with
      | zero => exact hfirst
      | succ k => rfl

theorem revise_at_of_none {results : List (Tree × List (Option Bool))}
    (h : (revise w ctx tag file orders docs).failure = none)
    (hresults : List.Forall₂ (fun t r => alone w ctx tag file orders t = .ok r) docs results)
    {i : Nat} (hr : results[i]? = some r) :
    (revise w ctx tag file orders docs).documents[i]? = some r.1 ∧
      ∀ k, (revise w ctx tag file orders docs).flag? k i = r.2[k]?.join := by
  obtain ⟨hi, rfl⟩ := List.getElem?_eq_some_iff.mp hr
  have hi' : i < docs.length := hresults.length_eq ▸ hi
  have halone := (List.forall₂_iff_get.mp hresults).2 i hi' hi
  obtain ⟨u, flags, ha, hu, hflags⟩ := revise_of_none h (List.getElem?_eq_getElem hi')
  have he : results[i] = (u, flags) := Except.ok.inj (halone.symm.trans ha)
  rw [he]
  exact ⟨hu, hflags⟩

/-- A revision that ends well, told by what becomes of each document alone. -/
theorem mapM_alone_of_none (h : (revise w ctx tag file orders docs).failure = none) :
    ∃ results, docs.mapM (alone w ctx tag file orders) = .ok results ∧
      (revise w ctx tag file orders docs).documents = results.map Prod.fst ∧
      ((revise w ctx tag file orders docs).changes ≠ 0 ↔ ∃ r ∈ results, some true ∈ r.2) := by
  obtain ⟨results, hresults⟩ := exists_forall₂ fun t ht => exists_alone_of_none h ht
  refine ⟨results, mapM_eq_ok_iff.mpr hresults, ?_, ?_⟩
  · have hlength : (revise w ctx tag file orders docs).documents.length = results.length :=
      (length_revise orders docs).trans hresults.length_eq
    refine List.ext_getElem? fun i => ?_
    rw [List.getElem?_map]
    cases hr : results[i]? with
    | none =>
      rw [List.getElem?_eq_none_iff, ← hlength] at hr
      exact List.getElem?_eq_none hr
    | some r => exact (revise_at_of_none h hresults hr).1
  · rw [Revision.changes_ne_zero_iff]
    constructor
    · rintro ⟨k, i, hflag⟩
      cases hr : results[i]? with
      | none =>
        rw [List.getElem?_eq_none_iff, ← hresults.length_eq] at hr
        rw [flag?_revise_of_le hr] at hflag
        cases hflag
      | some r =>
        rw [(revise_at_of_none h hresults hr).2, Option.join_eq_some_iff] at hflag
        exact ⟨r, List.mem_of_getElem? hr, List.mem_of_getElem? hflag⟩
    · rintro ⟨r, hr, hflag⟩
      obtain ⟨i, hi⟩ := List.mem_iff_getElem?.mp hr
      obtain ⟨k, hk⟩ := List.mem_iff_getElem?.mp hflag
      exact ⟨k, i, by rw [(revise_at_of_none h hresults hi).2, hk]; rfl⟩

/-- The documents of a stream do not interfere. A revision ends well exactly if each document gets
through all changes alone, and then it makes of each of them what they make of it alone, with the
same flags. It fails with an error exactly if that is the error of the first pair of a change and a
document, change by change, that fails: the documents before that one carry the change, and
it and those behind it carry the earlier changes only. -/
theorem revise_documents_apart (w : World) (ctx : Context) (tag : Option String) (file : String)
    (orders : List Order) (docs : List Tree) :
    let r := revise w ctx tag file orders docs
    r.documents.length = docs.length ∧
    (r.failure = none ↔ ∀ t ∈ docs, ∃ x, alone w ctx tag file orders t = .ok x) ∧
    (r.failure = none → ∀ i t, docs[i]? = some t →
      ∃ u flags, alone w ctx tag file orders t = .ok (u, flags) ∧ r.documents[i]? = some u ∧
        ∀ k, r.flag? k i = flags[k]?.join) ∧
    (∀ e, r.failure = some e ↔ ∃ k j, FailsFirst w ctx tag file orders docs k j e) ∧
    ∀ k j e, FailsFirst w ctx tag file orders docs k j e →
      LeftAt w ctx tag file orders docs r.documents k j := by
  refine ⟨length_revise orders docs, failure_eq_none_iff, fun h i t ht => revise_of_none h ht,
    fun e => ⟨fun h => ?_, ?_⟩, fun k j e h => h.failure.2⟩
  · obtain ⟨k, j, hfirst, -⟩ := revise_of_failure h
    exact ⟨k, j, hfirst⟩
  · rintro ⟨k, j, hfirst⟩
    exact hfirst.failure.1

end

theorem Order.onDocument_literal {key : String} {e : Selector.Expression}
    (he : Selector.parse key = .ok e) (w : World) (ctx : Context) (tag : Option String)
    (file text : String) (t : Tree) :
    onDocument w ctx tag file ⟨none, none, none, key, .literal text⟩ t =
      (Selector.set text e t).map fun r => (r.1, some r.2) := by
  have hchange : (Source.literal text).change w ctx none key t = Selector.set text e t :=
    Source.change_of_value he fun _ => rfl
  rw [← hchange]
  rfl

/-- Changes of the port, of the port in tests, and of the host. -/
def podOrders : List Order :=
  [⟨none, none, none, ".port", .literal "81"⟩, ⟨some "test", none, none, ".port", .literal "0"⟩,
    ⟨none, none, none, ".spec.host", .literal "web"⟩]

/-- A pod with a host or without, and a port or none. -/
def podOf (host port : List (String × Tree)) : Tree := .map (("spec", .map host) :: port)

def livePods : Revision :=
  revise Source.bareWorld (.root "/srv") (some "live") "pods.yaml" podOrders
    [podOf [] [], .map [], podOf [] []]

theorem revise_documents_apart_livePods :
    livePods.failure = some (.notFound (.field "spec")) ∧
      livePods.documents[0]? = some (podOf [("host", .text "web")] [("port", .text "81")]) ∧
      livePods.documents[1]? = some (.map [("port", .text "81")]) ∧
      livePods.documents[2]? = some (podOf [] [("port", .text "81")]) := by
  obtain ⟨-, -, -, hfailure, hleft⟩ := revise_documents_apart Source.bareWorld (.root "/srv")
    (some "live") "pods.yaml" podOrders [podOf [] [], .map [], podOf [] []]
  have hport : Selector.parse ".port" = .ok ⟨".port", [.path [.field "port"]]⟩ := by decide +kernel
  have hhost : Selector.parse ".spec.host" =
      .ok ⟨".spec.host", [.path [.field "spec", .field "host"]]⟩ := by decide +kernel
  have hsetPort := fun t => Order.onDocument_literal hport Source.bareWorld (.root "/srv")
    (some "live") "pods.yaml" "81" t
  have hsetHost := fun t => Order.onDocument_literal hhost Source.bareWorld (.root "/srv")
    (some "live") "pods.yaml" "web" t
  have hpod : alone Source.bareWorld (.root "/srv") (some "live") "pods.yaml" (podOrders.take 2)
      (podOf [] []) = .ok (podOf [] [("port", .text "81")], [some true, none]) :=
    alone_cons_of_ok (hsetPort _) (alone_singleton rfl)
  have hempty : alone Source.bareWorld (.root "/srv") (some "live") "pods.yaml" (podOrders.take 2)
      (.map []) = .ok (.map [("port", .text "81")], [some true, none]) :=
    alone_cons_of_ok (hsetPort _) (alone_singleton rfl)
  have hfull : alone Source.bareWorld (.root "/srv") (some "live") "pods.yaml" podOrders
      (podOf [] []) = .ok (podOf [("host", .text "web")] [("port", .text "81")],
        [some true, none, some true]) :=
    alone_cons_of_ok (hsetPort _) (alone_cons_of_ok rfl (alone_singleton (hsetHost _)))
  have hfirst : FailsFirst Source.bareWorld (.root "/srv") (some "live") "pods.yaml" podOrders
      [podOf [] [], .map [], podOf [] []] 2 1 (.notFound (.field "spec")) := by
    refine ⟨fun t ht => ?_, fun i hi t ht => ?_, _, _, _, _, rfl, rfl, hempty, hsetHost _⟩
    · simp only [List.mem_cons, List.not_mem_nil, or_false] at ht
      rcases ht with rfl | rfl | rfl
      · exact ⟨_, hpod⟩
      · exact ⟨_, hempty⟩
      · exact ⟨_, hpod⟩
    · obtain rfl : i = 0 := by omega
      cases ht
      exact ⟨_, hfull⟩
  have hdocuments := hleft 2 1 _ hfirst
  obtain ⟨_, _, h₀, ha₀⟩ := hdocuments 0 _ rfl
  obtain ⟨_, _, h₁, ha₁⟩ := hdocuments 1 _ rfl
  obtain ⟨_, _, h₂, ha₂⟩ := hdocuments 2 _ rfl
  cases hfull.symm.trans ha₀
  cases hempty.symm.trans ha₁
  cases hpod.symm.trans ha₂
  exact ⟨(hfailure _).mpr ⟨2, 1, hfirst⟩, h₀, h₁, h₂⟩

end FieldPatch
