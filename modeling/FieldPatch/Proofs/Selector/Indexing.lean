import FieldPatch.Proofs.Selector.Direct
import FieldPatch.Proofs.Tree.Position
import FieldPatch.Proofs.Tree.Words

/-! Indices and slices of arrays: which items they are, for reading and for writing, and that words
of 64 bits suffice to make them out. -/

namespace FieldPatch.Selector

/-- Reading and writing at an index of an array go to the item at a position. -/
structure GoesTo (xs : List Tree) (i : Int) (p : Nat) (v : Tree) : Prop where
  item : xs[p]? = some v
  reads : ∀ c : Cursor, c.node = .array xs → c.index i = .ok (c.child (.index p) v)
  writes : ∀ text rest, writeDirect text (.index i :: rest) (.array xs) =
    (writeDirect text rest v).map fun r => (.array (xs.set p r.1), r.2)

/-- Reading and writing at an index of an array fail, with the index as it was given. -/
structure GoesBeyond (xs : List Tree) (i : Int) : Prop where
  reads : ∀ c : Cursor, c.node = .array xs → c.index i = .error (.indexOutOfBounds i xs.length)
  writes : ∀ text rest, writeDirect text (.index i :: rest) (.array xs) =
    .error (.indexOutOfBounds i xs.length)

/-- A bound of a slice as a position from `0` to the length. -/
def sliceBound (bound : Option Int) (missing length : Nat) : Int :=
  bound.elim missing fun b => max 0 (min (if b < 0 then length + b else b) length)

variable {xs : List Tree} {i : Int}

theorem goesTo_of_resolveIndex {p : Nat} (h : resolveIndex i xs.length = .ok p) :
    ∃ v, GoesTo xs i p v := by
  have hp := resolveIndex_lt h
  have hv : xs[p]? = some xs[p] := List.getElem?_eq_getElem hp
  have hchild := childOf_index_of_getElem? h hv
  refine ⟨xs[p], hv, fun c hc => ?_, fun text rest => writeDirect_cons_of_child hchild rest⟩
  rw [Cursor.index_eq, hc, hchild]
  rfl

theorem goesBeyond_of_resolveIndex
    (h : resolveIndex i xs.length = .error (.indexOutOfBounds i xs.length)) : GoesBeyond xs i := by
  have hchild : (DirectStep.index i).childOf (.array xs) =
      .error (.indexOutOfBounds i xs.length) := by
    simp only [DirectStep.childOf, h]
    rfl
  refine ⟨fun c hc => ?_, fun text rest => writeDirect_cons_of_error hchild rest ?_⟩
  · rw [Cursor.index_eq, hc, hchild]
    rfl
  · intro _ name es hfield
    cases hfield

theorem goesTo_of_inside (h : -(xs.length : Int) ≤ i) (h' : i < xs.length) :
    ∃ (p : Nat) (v : Tree), (p : Int) = (if i < 0 then xs.length + i else i) ∧ GoesTo xs i p v := by
  have hp : resolveIndex i xs.length = .ok (fromFront i xs.length).toNat := by
    rw [resolveIndex_eq_ok_iff, fromFront]
    split <;> omega
  obtain ⟨v, hv⟩ := goesTo_of_resolveIndex hp
  refine ⟨_, v, ?_, hv⟩
  rw [fromFront]
  split <;> omega

theorem goesBeyond_of_outside (h : i < -(xs.length : Int) ∨ xs.length ≤ i) : GoesBeyond xs i := by
  apply goesBeyond_of_resolveIndex
  rw [resolveIndex, fromFront]
  split
  · rw [if_pos (by omega)]
  · rw [if_pos (by omega)]

theorem toNat_sliceBound (bound : Option Int) (missing length : Nat) :
    (sliceBound bound missing length).toNat = bound.elim missing (clampBound · length) := by
  cases bound with
  | none => rfl
  | some b =>
    show (max 0 (min (fromFront b length) length)).toNat = clampBound b length
    rw [clampBound]
    omega

theorem slice_eq_filter (first last : Option Int) {c : Cursor} (hc : c.node = .array xs) :
    c.slice first last = .ok ⟨.array ((xs.zipIdx.filter fun r =>
      sliceBound first 0 xs.length ≤ r.2 && r.2 < sliceBound last xs.length xs.length).map
        Prod.fst), none⟩ := by
  have hitems := filter_zipIdx_interval (sliceBound first 0 xs.length)
    (sliceBound last xs.length xs.length) 0 xs
  rw [Int.natCast_zero, Int.sub_zero, Int.sub_zero, toNat_sliceBound, toNat_sliceBound,
    List.drop_take] at hitems
  simp only [Cursor.slice, hc, hitems, resolveSlice, List.drop_take]
  congr 4
  omega

/-- In an array of a length that a signed word can hold, positions are made out without overflow.
An index from minus the length up to the length is the item there, counted from the end if it is
negative, and any other is refused; this goes for reading and for writing. A slice has the items
between its bounds in order. -/
theorem indices_and_slices_exact (hn : xs.length < 0x8000000000000000) :
    (∀ i : Int64, (Words.resolveIndex? i (.ofNat xs.length)).map (Except.map UInt64.toNat) =
      some (resolveIndex i.toInt xs.length)) ∧
    (∀ first last : Option Int64,
      (Words.resolveSlice? first last (.ofNat xs.length)).map (Prod.map UInt64.toNat UInt64.toNat) =
        some (resolveSlice (first.map Int64.toInt) (last.map Int64.toInt) xs.length)) ∧
    (∀ i : Int, -(xs.length : Int) ≤ i → i < xs.length → ∃ (p : Nat) (v : Tree),
      (p : Int) = (if i < 0 then xs.length + i else i) ∧ GoesTo xs i p v) ∧
    (∀ i : Int, i < -(xs.length : Int) ∨ xs.length ≤ i → GoesBeyond xs i) ∧
    (∀ k : Nat, 0 < k → k ≤ xs.length → ∃ p v, GoesTo xs (-k) p v ∧ GoesTo xs (xs.length - k) p v) ∧
    ∀ first last : Option Int,
      (resolveSlice first last xs.length).1 ≤ (resolveSlice first last xs.length).2 ∧
      (resolveSlice first last xs.length).2 ≤ xs.length ∧
      ∀ c : Cursor, c.node = .array xs →
        c.slice first last = .ok ⟨.array ((xs.zipIdx.filter fun r =>
          sliceBound first 0 xs.length ≤ r.2 && r.2 < sliceBound last xs.length xs.length).map
            Prod.fst), none⟩ ∧
        (sliceBound last xs.length xs.length < sliceBound first 0 xs.length →
          c.slice first last = .ok ⟨.array [], none⟩) := by
  have hlength : (UInt64.ofNat xs.length).toNat = xs.length :=
    UInt64.toNat_ofNat_of_lt' (Nat.lt_trans hn (by decide))
  have hword : (UInt64.ofNat xs.length).toNat < 0x8000000000000000 := by rwa [hlength]
  refine ⟨fun i => ?_, fun first last => ?_, fun i => goesTo_of_inside,
    fun i => goesBeyond_of_outside, fun k hk hle => ?_, fun first last => ?_⟩
  · rw [Words.resolveIndex?_eq hword, hlength]
  · rw [Words.resolveSlice?_eq hword, hlength]
  · have hlow : -(xs.length : Int) ≤ -k := by omega
    have hhigh : xs.length - k < (xs.length : Int) := by omega
    obtain ⟨p, v, hp, hv⟩ := goesTo_of_inside hlow (by omega)
    obtain ⟨q, w, hq, hw⟩ := goesTo_of_inside (by omega) hhigh
    rw [if_pos (by omega)] at hp
    rw [if_neg (by omega)] at hq
    obtain rfl : p = q := by omega
    obtain rfl : v = w := Option.some.inj (hv.item.symm.trans hw.item)
    exact ⟨p, v, hv, hw⟩
  · obtain ⟨hle, hle'⟩ := resolveSlice_le first last xs.length
    refine ⟨hle, hle', fun c hc => ⟨slice_eq_filter first last hc, fun hinverted => ?_⟩⟩
    rw [slice_eq_filter first last hc, List.filter_eq_nil_iff.mpr, List.map_nil]
    intro r _
    simp only [Bool.and_eq_true, decide_eq_true_eq]
    omega

def threePorts : List Tree := [.text "http", .text "https", .text "admin"]

theorem indices_and_slices_exact_ports : threePorts.length < 0x8000000000000000 ∧
    (Words.resolveIndex? (-1) (.ofNat threePorts.length)).map (Except.map UInt64.toNat) = some (.ok 2) ∧
    (Cursor.root (.array threePorts)).slice (some (-2)) none =
      .ok ⟨.array [.text "https", .text "admin"], none⟩ := by
  have hn : threePorts.length < 0x8000000000000000 := by decide
  obtain ⟨hindex, -, -, -, -, hslice⟩ := indices_and_slices_exact hn
  obtain ⟨-, -, hitems⟩ := hslice (some (-2)) none
  exact ⟨hn, hindex (-1), (hitems (Cursor.root (.array threePorts)) rfl).1⟩

end FieldPatch.Selector
