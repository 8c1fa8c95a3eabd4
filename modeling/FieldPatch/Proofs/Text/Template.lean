import FieldPatch.Proofs.Text.Dollars
import FieldPatch.Proofs.Tree.Entries
import Mathlib

/-! A template is read once, from the left: at each place the longest declared name in braces is
taken, else the longest bare one, else a single character. Values have no part in that. -/

namespace FieldPatch.Template

/-- A stretch of a template: a character that stays, or a placeholder. -/
inductive Piece where
  | kept (c : Char)
  | braced (name : String)
  | bare (name : String)

namespace Piece

/-- As it is written. -/
def text : Piece → List Char
  | kept c => [c]
  | braced name => ['$', '\x7b'] ++ name.toList ++ ['\x7d']
  | bare name => ['$'] ++ name.toList ++ []

def filled (value : String → String) : Piece → List Char
  | kept c => [c]
  | braced name => (value name).toList
  | bare name => (value name).toList

def name? : Piece → Option String
  | kept _ => none
  | braced name => some name
  | bare name => some name

end Piece

/-- The name stands here between `before` and `after`. -/
def Fits (before after : List Char) (name : String) (cs : List Char) : Prop :=
  before ++ name.toList ++ after <+: cs

/-- No declared name that fits here is longer. -/
structure Longest (declared : String → Prop) (before after : List Char) (name : String)
    (cs : List Char) : Prop where
  allowed : declared name
  fits : Fits before after name cs
  longest : ∀ other, declared other → Fits before after other cs → other.length ≤ name.length

/-- What is taken at the start of the text. -/
inductive Next (declared : String → Prop) (cs : List Char) : Piece → Prop where
  | braced {name : String} (h : Longest declared ['$', '\x7b'] ['\x7d'] name cs) :
      Next declared cs (.braced name)
  | bare {name : String} (hbraced : ∀ n, declared n → ¬ Fits ['$', '\x7b'] ['\x7d'] n cs)
      (h : Longest declared ['$'] [] name cs) : Next declared cs (.bare name)
  | kept {c : Char} (hbraced : ∀ n, declared n → ¬ Fits ['$', '\x7b'] ['\x7d'] n cs)
      (hbare : ∀ n, declared n → ¬ Fits ['$'] [] n cs) (h : cs.head? = some c) :
      Next declared cs (.kept c)

/-- The pieces of the whole text, each taken where the one before it ends. -/
inductive Scan (declared : String → Prop) : List Char → List Piece → Prop where
  | done : Scan declared [] []
  | next {cs rest : List Char} {p : Piece} {ps : List Piece} (hp : Next declared cs p)
      (hcs : cs = p.text ++ rest) (more : Scan declared rest ps) : Scan declared cs (p :: ps)

section

variable {declared : String → Prop} {before after cs rest : List Char} {name other : String}
  {p q : Piece} {ps qs : List Piece}

theorem append_eq_of_fits (hn : Fits before after name cs) (ho : Fits before after other cs) :
    ∃ r s, name.toList ++ r = other.toList ++ s := by
  obtain ⟨r, hr⟩ := hn
  obtain ⟨s, hs⟩ := ho
  have hcs : before ++ (name.toList ++ (after ++ r)) = before ++ (other.toList ++ (after ++ s)) := by
    simpa only [List.append_assoc] using hr.trans hs.symm
  exact ⟨_, _, List.append_cancel_left hcs⟩

theorem eq_of_fits (hn : Fits before after name cs) (ho : Fits before after other cs)
    (hl : name.length = other.length) : name = other := by
  obtain ⟨r, s, he⟩ := append_eq_of_fits hn ho
  exact String.toList_injective (List.append_inj_left he hl)

theorem Longest.unique (h : Longest declared before after name cs)
    (h' : Longest declared before after other cs) : name = other := by
  have hle := h'.longest name h.allowed h.fits
  have hge := h.longest other h'.allowed h'.fits
  exact eq_of_fits h.fits h'.fits (by omega)

theorem Next.unique (h : Next declared cs p) (h' : Next declared cs q) : p = q := by
  cases h with
  | braced h =>
    cases h' with
    | braced h' => rw [h.unique h']
    | bare hno _ => exact absurd h.fits (hno _ h.allowed)
    | kept hno _ _ => exact absurd h.fits (hno _ h.allowed)
  | bare hno h =>
    cases h' with
    | braced h' => exact absurd h'.fits (hno _ h'.allowed)
    | bare _ h' => rw [h.unique h']
    | kept _ hbare _ => exact absurd h.fits (hbare _ h.allowed)
  | kept hno hbare h =>
    cases h' with
    | braced h' => exact absurd h'.fits (hno _ h'.allowed)
    | bare _ h' => exact absurd h'.fits (hbare _ h'.allowed)
    | kept _ _ h' => rw [Option.some.inj (h.symm.trans h')]

theorem Piece.text_ne_nil (p : Piece) : p.text ≠ [] := by
  cases p <;> simp [text]

theorem Scan.unique (h : Scan declared cs ps) (h' : Scan declared cs qs) : ps = qs := by
  induction h generalizing qs with
  | done =>
    cases h' with
    | done => rfl
    | @next _ rest q _ _ hcs _ => exact absurd (List.append_eq_nil_iff.mp hcs.symm).1 q.text_ne_nil
  | @next cs rest p ps hp hcs more ih =>
    cases h' with
    | done => exact absurd (List.append_eq_nil_iff.mp hcs.symm).1 p.text_ne_nil
    | next hq hcs' more' =>
      obtain rfl := hp.unique hq
      have hrest := List.append_cancel_left (hcs.symm.trans hcs')
      rw [ih (hrest ▸ more')]

theorem Scan.flatMap_text (h : Scan declared cs ps) : ps.flatMap Piece.text = cs := by
  induction h with
  | done => rfl
  | next _ hcs _ ih => rw [List.flatMap_cons, ih, hcs]

theorem Next.declared_name (h : Next declared cs p) (hp : p.name? = some name) : declared name := by
  cases h with
  | braced h => exact Option.some.inj hp ▸ h.allowed
  | bare _ h => exact Option.some.inj hp ▸ h.allowed
  | kept _ _ _ => cases hp

theorem Scan.declared_name (h : Scan declared cs ps) :
    ∀ p ∈ ps, ∀ name, p.name? = some name → declared name := by
  induction h with
  | done => simp
  | next hp _ _ ih =>
    intro q hq name hname
    rcases List.mem_cons.mp hq with rfl | hq
    · exact hp.declared_name hname
    · exact ih q hq name hname

end

/-- The names that placeholders can have. -/
def Declared (pairs : List (String × String)) (name : String) : Prop :=
  name ≠ "" ∧ name ∈ Entries.keys pairs

theorem precedes_trans (a b c : String) (hab : precedes a b = true) (hbc : precedes b c = true) :
    precedes a c = true := by
  simp only [precedes, Bool.or_eq_true, Bool.and_eq_true, decide_eq_true_eq, beq_iff_eq] at *
  rcases hab with hab | ⟨hab, hle⟩
  · rcases hbc with hbc | ⟨hbc, -⟩
    · exact .inl (by omega)
    · exact .inl (by omega)
  · rcases hbc with hbc | ⟨hbc, hle'⟩
    · exact .inl (by omega)
    · exact .inr ⟨by omega, String.le_trans hle hle'⟩

theorem precedes_total (a b : String) : (precedes a b || precedes b a) = true := by
  simp only [precedes, Bool.or_eq_true, Bool.and_eq_true, decide_eq_true_eq, beq_iff_eq]
  rcases Nat.lt_trichotomy a.utf8ByteSize b.utf8ByteSize with hlt | heq | hgt
  · exact .inr (.inl hlt)
  · rcases String.le_total a b with hle | hle
    · exact .inl (.inr ⟨heq, hle⟩)
    · exact .inr (.inr ⟨heq.symm, hle⟩)
  · exact .inl (.inl hgt)

section

variable {before after cs : List Char} {name other : String} {vars : Variables}

theorem mem_alternatives : name ∈ alternatives vars ↔ Declared vars name := by
  rw [alternatives, List.mem_mergeSort, List.mem_filter, decide_eq_true_eq, and_comm]
  rfl

theorem pairwise_alternatives (vars : Variables) :
    (alternatives vars).Pairwise fun a b => b.utf8ByteSize ≤ a.utf8ByteSize := by
  have hsorted := List.pairwise_mergeSort precedes_trans precedes_total
    ((Entries.keys vars).filter (· ≠ ""))
  refine hsorted.imp fun {a b} hab => ?_
  simp only [precedes, Bool.or_eq_true, Bool.and_eq_true, decide_eq_true_eq, beq_iff_eq] at hab
  omega

/-- Of names that fit at one place, the one of more bytes has more characters. -/
theorem length_le_of_fits (hn : Fits before after name cs) (ho : Fits before after other cs)
    (hle : other.utf8ByteSize ≤ name.utf8ByteSize) : other.length ≤ name.length := by
  by_contra hlt
  obtain ⟨r, s, htexts⟩ := append_eq_of_fits hn ho
  have hprefix : name.toList <+: other.toList := by
    refine List.prefix_of_prefix_length_le ⟨_, htexts⟩ (List.prefix_append _ _) ?_
    simpa only [String.length_toList] using (Nat.lt_of_not_le hlt).le
  obtain ⟨x, hx⟩ := hprefix
  have hother : other = name ++ String.ofList x := by
    apply String.toList_injective
    rw [String.toList_append, String.toList_ofList, hx]
  have hempty : String.ofList x = "" := by
    rw [hother, String.utf8ByteSize_append] at hle
    exact String.utf8ByteSize_eq_zero_iff.mp (by omega)
  rw [hother, hempty, String.append_empty] at hlt
  exact hlt le_rfl

/-- The first name in order that fits is the longest that does. -/
theorem firstFit_spec (before after : List Char) (vars : Variables) (cs : List Char) :
    (firstFit before after (alternatives vars) cs = none ∧
      ∀ n, Declared vars n → ¬ Fits before after n cs) ∨
    ∃ name, firstFit before after (alternatives vars) cs = some name ∧
      Longest (Declared vars) before after name cs := by
  cases hfirst : firstFit before after (alternatives vars) cs with
  | none =>
    refine .inl ⟨rfl, fun n hn hfits => ?_⟩
    have hno := List.find?_eq_none.mp hfirst n (mem_alternatives.mpr hn)
    exact hno (List.isPrefixOf_iff_prefix.mpr hfits)
  | some name =>
    obtain ⟨hfits, earlier, later, heq, hnone⟩ := List.find?_eq_some_iff_append.mp hfirst
    have hname : name ∈ alternatives vars := heq ▸ by simp
    have hfits := List.isPrefixOf_iff_prefix.mp hfits
    refine .inr ⟨name, rfl, mem_alternatives.mp hname, hfits, fun other ho hother => ?_⟩
    have hmem := mem_alternatives.mpr ho
    rw [heq, List.mem_append, List.mem_cons] at hmem
    rcases hmem with hm | rfl | hm
    · have hno := hnone other hm
      rw [List.isPrefixOf_iff_prefix.mpr hother] at hno
      cases hno
    · exact le_rfl
    · have hsorted := pairwise_alternatives vars
      rw [heq, List.pairwise_append, List.pairwise_cons] at hsorted
      exact length_le_of_fits hfits hother (hsorted.2.1.1 other hm)

theorem placeholder_spec (vars : Variables) (cs : List Char) :
    (placeholder (alternatives vars) cs = none ∧
      ∀ c, cs.head? = some c → Next (Declared vars) cs (.kept c)) ∨
    ∃ p name, placeholder (alternatives vars) cs = some (name, p.text.length) ∧
      Next (Declared vars) cs p ∧ p.text <+: cs ∧
      p.filled (valueIn vars) = (valueIn vars name).toList := by
  rcases firstFit_spec ['$', '\x7b'] ['\x7d'] vars cs with ⟨hnone, hno⟩ | ⟨name, hsome, hlong⟩
  · rcases firstFit_spec ['$'] [] vars cs with ⟨hnone', hno'⟩ | ⟨name, hsome, hlong⟩
    · exact .inl ⟨by rw [placeholder, hnone, hnone']; rfl, fun c hc => .kept hno hno' hc⟩
    · refine .inr ⟨.bare name, name, ?_, .bare hno hlong, hlong.fits, rfl⟩
      rw [placeholder, hnone, hsome]
      simp [Piece.text, String.length_toList]
  · refine .inr ⟨.braced name, name, ?_, .braced hlong, hlong.fits, rfl⟩
    rw [placeholder, hsome]
    simp [Piece.text, String.length_toList]

end

theorem substitute_drop (vars : Variables) (names : List String) (skip : Nat) (cs : List Char) :
    substitute vars names skip cs = substitute vars names 0 (cs.drop skip) := by
  induction cs generalizing skip with
  | nil => cases skip <;> rfl
  | cons c cs ih =>
    cases skip with
    | zero => rfl
    | succ skip => exact ih skip

theorem exists_scan (vars : Variables) (cs : List Char) :
    ∃ pieces, Scan (Declared vars) cs pieces ∧
      substitute vars (alternatives vars) 0 cs = pieces.flatMap (Piece.filled (valueIn vars)) := by
  -- the text gets shorter by a whole piece at a time
  induction hk : cs.length using Nat.strong_induction_on generalizing cs with
  | _ k ih =>
    cases cs with
    | nil => exact ⟨[], .done, rfl⟩
    | cons c tail =>
      rcases placeholder_spec vars (c :: tail) with
        ⟨hnone, hkept⟩ | ⟨p, name, hsome, hnext, hfits, hvalue⟩
      · obtain ⟨pieces, hscan, hsub⟩ := ih tail.length (by simp [← hk]) tail rfl
        refine ⟨.kept c :: pieces, .next (hkept c rfl) rfl hscan, ?_⟩
        rw [substitute, hnone]
        simp [hsub, Piece.filled]
      · obtain ⟨rest, hrest⟩ := hfits
        have hpos := List.length_pos_iff.mpr p.text_ne_nil
        have hlen := congrArg List.length hrest
        simp only [List.length_append, List.length_cons] at hlen hk
        obtain ⟨pieces, hscan, hsub⟩ := ih rest.length (by omega) rest rfl
        have hdrop : tail.drop (p.text.length - 1) = rest := by
          have hd : (c :: tail).drop p.text.length = rest := by rw [← hrest, List.drop_left]
          rwa [← Nat.sub_add_cancel hpos, List.drop_succ_cons] at hd
        refine ⟨p :: pieces, .next hnext hrest.symm hscan, ?_⟩
        rw [substitute, hsome]
        show (valueIn vars name).toList ++
          substitute vars (alternatives vars) (p.text.length - 1) tail = _
        rw [substitute_drop, hdrop, hsub, List.flatMap_cons, hvalue]

def lastValue (pairs : List (String × String)) (name : String) : String :=
  (Entries.last? name pairs).getD ""

/-- The pieces with values for their names, and then half of the dollar signs. -/
def rendered (pairs : List (String × String)) (pieces : List Piece) : List Char :=
  halved (pieces.flatMap (Piece.filled (lastValue pairs)))

section

variable {template : String} {pairs others : List (String × String)} {pieces : List Piece}

theorem declared_ofPairs (pairs : List (String × String)) :
    Declared (Entries.ofPairs pairs) = Declared pairs := by
  funext name
  simp only [Declared, Entries.mem_keys_ofPairs]

theorem valueIn_ofPairs (pairs : List (String × String)) :
    valueIn (Entries.ofPairs pairs) = lastValue pairs := by
  funext name
  simp only [valueIn, lastValue, Entries.get?_ofPairs]

theorem render_of_scan (h : Scan (Declared pairs) template.toList pieces) :
    (render template (Entries.ofPairs pairs)).toList = rendered pairs pieces := by
  obtain ⟨ps, hscan, hsub⟩ := exists_scan (Entries.ofPairs pairs) template.toList
  rw [declared_ofPairs] at hscan
  rw [valueIn_ofPairs, hscan.unique h] at hsub
  rw [render, String.toList_ofList, collapse_eq_halved, hsub, rendered]

theorem declared_iff_of_last? (h : ∀ n ≠ "", Entries.last? n others = Entries.last? n pairs)
    (name : String) : Declared others name ↔ Declared pairs name := by
  refine and_congr_right fun hne => not_iff_not.mp ?_
  rw [← Entries.last?_eq_none_iff, ← Entries.last?_eq_none_iff, h name hne]

theorem rendered_congr (h : ∀ p ∈ pieces, ∀ name, p.name? = some name →
      lastValue others name = lastValue pairs name) :
    rendered others pieces = rendered pairs pieces := by
  have hfilled : ∀ p ∈ pieces, p.filled (lastValue others) = p.filled (lastValue pairs) := by
    intro p hp
    cases p with
    | kept c => rfl
    | braced name => exact congrArg String.toList (h _ hp name rfl)
    | bare name => exact congrArg String.toList (h _ hp name rfl)
  rw [rendered, rendered, List.flatMap_congr hfilled]

end

/-- Rendering is one pass over the template. The pieces it is cut into are settled by the names
alone; each placeholder has the last value of its name put in; then half of each run of dollar
signs is left. -/
theorem render_one_pass (template : String) (pairs : List (String × String)) :
    ∃ pieces, Scan (Declared pairs) template.toList pieces ∧
      (∀ ps, Scan (Declared pairs) template.toList ps → ps = pieces) ∧
      pieces.flatMap Piece.text = template.toList ∧
      (∀ p ∈ pieces, ∀ name, p.name? = some name → Declared pairs name) ∧
      (render template (Entries.ofPairs pairs)).toList = rendered pairs pieces ∧
      (∀ others, (∀ name, Declared others name ↔ Declared pairs name) →
        (render template (Entries.ofPairs others)).toList = rendered others pieces) ∧
      (∀ others, (∀ name ≠ "", Entries.last? name others = Entries.last? name pairs) →
        render template (Entries.ofPairs others) = render template (Entries.ofPairs pairs)) ∧
      ∀ others, others.Perm pairs → (Entries.keys pairs).Nodup →
        render template (Entries.ofPairs others) = render template (Entries.ofPairs pairs) := by
  obtain ⟨pieces, hscan, -⟩ := exists_scan (Entries.ofPairs pairs) template.toList
  rw [declared_ofPairs] at hscan
  have hnames : ∀ others, (∀ name, Declared others name ↔ Declared pairs name) →
      (render template (Entries.ofPairs others)).toList = rendered others pieces := by
    intro others h
    have he : Declared others = Declared pairs := funext fun name => propext (h name)
    exact render_of_scan (he ▸ hscan)
  have hlast : ∀ others, (∀ name ≠ "", Entries.last? name others = Entries.last? name pairs) →
      render template (Entries.ofPairs others) = render template (Entries.ofPairs pairs) := by
    intro others h
    have hrendered : rendered others pieces = rendered pairs pieces := by
      refine rendered_congr fun p hp name hname => ?_
      have hne : name ≠ "" := (hscan.declared_name p hp name hname).1
      rw [lastValue, lastValue, h name hne]
    apply String.toList_injective
    rw [hnames others (declared_iff_of_last? h), render_of_scan hscan, hrendered]
  refine ⟨pieces, hscan, fun ps h => h.unique hscan, hscan.flatMap_text, hscan.declared_name,
    render_of_scan hscan, hnames, hlast, ?_⟩
  intro others hperm hnodup
  exact hlast others fun name _ => Entries.last?_of_perm hperm hnodup name

example : render "$$${image-tag} $image-pull ${tag}" [("image", "api"), ("image-tag", "$tag")] =
    "$$tag api-pull ${tag}" := by
  cbv

end FieldPatch.Template
