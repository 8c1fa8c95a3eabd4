import FieldPatch.Source.Accepts
import Mathlib.Data.List.Forall2

/-! What the patterns of paths say. A pattern is read from left to right as a list of items, each
item stands for some stretches of text, and a text is accepted if it can be cut into stretches for
the items in their order. -/

namespace FieldPatch

namespace Path

/-- How a pattern is read. A star is one of two if another follows it. -/
inductive Reads : List Char → Pattern → Prop
  | nil : Reads [] []
  | anywhere {cs : List Char} {ws : Pattern} (h : Reads cs ws) :
    Reads ('*' :: '*' :: cs) (.anywhere :: ws)
  | withinName {cs : List Char} {ws : Pattern} (hc : cs.head? ≠ some '*') (h : Reads cs ws) :
    Reads ('*' :: cs) (.withinName :: ws)
  | oneChar {cs : List Char} {ws : Pattern} (h : Reads cs ws) : Reads ('?' :: cs) (.oneChar :: ws)
  | char {c : Char} {cs : List Char} {ws : Pattern} (hs : c ≠ '*') (hq : c ≠ '?')
    (h : Reads cs ws) : Reads (c :: cs) (.char c :: ws)

/-- The stretches of text that an item stands for. -/
def Wildcard.StandsFor : Wildcard → List Char → Prop
  | .anywhere, _ => True
  | .withinName, piece => '/' ∉ piece
  | .oneChar, piece => ∃ c, c ≠ '/' ∧ piece = [c]
  | .char c, piece => piece = [c]

/-- The same, but that `**` does not cross the end of a line. -/
def Wildcard.StandsInLineFor (w : Wildcard) (piece : List Char) : Prop :=
  w.StandsFor piece ∧ (w = .anywhere → '\n' ∉ piece)

/-- The text that a pattern is held against. -/
inductive Subject (pattern path : String) : String → Prop
  | whole (h : '/' ∈ pattern.toList) : Subject pattern path path
  | name {name : String} (h : '/' ∉ pattern.toList) (hn : fileName? path = some name) :
    Subject pattern path name

/-- The text can be cut into stretches for the items in their order. -/
def Cut (stands : Wildcard → List Char → Prop) (items : Pattern) (cs : List Char) : Prop :=
  ∃ pieces : List (List Char), pieces.flatten = cs ∧ List.Forall₂ stands items pieces

/-- The pattern says that the path is accepted. -/
def Accepted (stands : Wildcard → List Char → Prop) (pattern path : String) : Prop :=
  ∃ subject items, Subject pattern path subject ∧ Reads pattern.toList items ∧
    Cut stands items subject.toList

theorem reads_ofChars (cs : List Char) : Reads cs (Pattern.ofChars cs) := by
  fun_induction Pattern.ofChars cs with
  | case1 cs ih => exact .anywhere ih
  | case2 cs hno ih =>
    refine .withinName ?_ ih
    intro hh
    obtain ⟨rest, rfl⟩ := List.head?_eq_some_iff.mp hh
    exact hno rest rfl
  | case3 cs ih => exact .oneChar ih
  | case4 c cs _ hs hq ih => exact .char hs hq ih
  | case5 => exact .nil

theorem Reads.unique {cs : List Char} {ws us : Pattern} (h : Reads cs ws) (h' : Reads cs us) :
    ws = us := by
  induction h generalizing us with
  | nil =>
    cases h'
    rfl
  | anywhere _ ih =>
    cases h' with
    | anywhere h' => rw [ih h']
    | withinName hc _ => exact absurd rfl hc
    | char hs _ _ => exact absurd rfl hs
  | withinName hc _ ih =>
    cases h' with
    | anywhere _ => exact absurd rfl hc
    | withinName _ h' => rw [ih h']
    | char hs _ _ => exact absurd rfl hs
  | oneChar _ ih =>
    cases h' with
    | oneChar h' => rw [ih h']
    | char _ hq _ => exact absurd rfl hq
  | char hs hq _ ih =>
    cases h' with
    | anywhere _ => exact absurd rfl hs
    | withinName _ _ => exact absurd rfl hs
    | oneChar _ => exact absurd rfl hq
    | char _ _ h' => rw [ih h']

theorem reads_iff {cs : List Char} {ws : Pattern} : Reads cs ws ↔ ws = Pattern.ofChars cs := by
  constructor
  · exact fun h => h.unique (reads_ofChars cs)
  · rintro rfl
    exact reads_ofChars cs

section

variable {stands : Wildcard → List Char → Prop} {w : Wildcard} {ws : Pattern} {cs : List Char}
  {p : Char → Bool}

theorem cut_nil : Cut stands [] cs ↔ cs = [] := by
  simp [Cut, List.forall₂_nil_left_iff, eq_comm]

theorem cut_cons :
    Cut stands (w :: ws) cs ↔ ∃ piece rest, cs = piece ++ rest ∧ stands w piece ∧ Cut stands ws rest := by
  constructor
  · rintro ⟨pieces, rfl, h⟩
    obtain ⟨piece, more, hw, hws, rfl⟩ := List.forall₂_cons_left_iff.mp h
    exact ⟨piece, more.flatten, by simp, hw, more, rfl, hws⟩
  · rintro ⟨piece, rest, rfl, hw, more, rfl, hws⟩
    exact ⟨piece :: more, by simp, .cons hw hws⟩

theorem cut_cons_oneChar (hw : ∀ piece, stands w piece ↔ ∃ c, piece = [c] ∧ p c = true) :
    Cut stands (w :: ws) cs ↔ ∃ c rest, cs = c :: rest ∧ p c = true ∧ Cut stands ws rest := by
  simp only [cut_cons, hw]
  constructor
  · rintro ⟨_, rest, rfl, ⟨c, rfl, hc⟩, hr⟩
    exact ⟨c, rest, rfl, hc, hr⟩
  · rintro ⟨c, rest, rfl, hc, hr⟩
    exact ⟨[c], rest, rfl, ⟨c, rfl, hc⟩, hr⟩

theorem cut_cons_someChars (hw : ∀ piece, stands w piece ↔ ∀ c ∈ piece, p c = true) :
    Cut stands (w :: ws) cs ↔
      ∃ piece rest, cs = piece ++ rest ∧ (∀ c ∈ piece, p c = true) ∧ Cut stands ws rest := by
  simp only [cut_cons, hw]

end

theorem standsInLineFor_anywhere (piece : List Char) :
    Wildcard.anywhere.StandsInLineFor piece ↔ ∀ c ∈ piece, (c != '\n') = true := by
  simp only [Wildcard.StandsInLineFor, Wildcard.StandsFor, true_and, forall_const, bne_iff_ne]
  exact ⟨fun h c hc he => h (he ▸ hc), fun h hm => h _ hm rfl⟩

theorem standsInLineFor_withinName (piece : List Char) :
    Wildcard.withinName.StandsInLineFor piece ↔ ∀ c ∈ piece, (c != '/') = true := by
  simp only [Wildcard.StandsInLineFor, Wildcard.StandsFor, reduceCtorEq, false_implies, and_true,
    bne_iff_ne]
  exact ⟨fun h c hc he => h (he ▸ hc), fun h hm => h _ hm rfl⟩

theorem standsInLineFor_oneChar (piece : List Char) :
    Wildcard.oneChar.StandsInLineFor piece ↔ ∃ c, piece = [c] ∧ (c != '/') = true := by
  simp [Wildcard.StandsInLineFor, Wildcard.StandsFor, and_comm]

theorem standsInLineFor_char (c : Char) (piece : List Char) :
    (Wildcard.char c).StandsInLineFor piece ↔ ∃ d, piece = [d] ∧ (d == c) = true := by
  simp [Wildcard.StandsInLineFor, Wildcard.StandsFor]

/-- The list says of each suffix of a text, from the whole text to the empty one, whether it has a
property. -/
inductive Tells (P : List Char → Prop) : List Char → List Bool → Prop
  | nil {b : Bool} (h : b = true ↔ P []) : Tells P [] [b]
  | cons {c : Char} {cs : List Char} {b : Bool} {bs : List Bool} (h : b = true ↔ P (c :: cs))
    (hs : Tells P cs bs) : Tells P (c :: cs) (b :: bs)

section

variable {P Q : List Char → Prop} {cs : List Char} {bs : List Bool} {p : Char → Bool}

theorem Tells.headD (h : Tells P cs bs) : bs.headD false = true ↔ P cs := by
  cases h with
  | nil h => exact h
  | cons h _ => exact h

theorem Tells.congr (h : Tells P cs bs) (hpq : ∀ cs, P cs ↔ Q cs) : Tells Q cs bs := by
  induction h with
  | nil h => exact .nil (h.trans (hpq _))
  | cons h _ ih => exact .cons (h.trans (hpq _)) ih

theorem tells_eq_nil (cs : List Char) :
    Tells (fun cs => cs = []) cs (cs.map (fun _ => false) ++ [true]) := by
  induction cs with
  | nil => exact .nil (by simp)
  | cons c cs ih => exact .cons (by simp) ih

theorem Tells.oneChar (h : Tells P cs bs) :
    Tells (fun cs => ∃ c rest, cs = c :: rest ∧ p c = true ∧ P rest) cs (oneChar p cs bs) := by
  induction h with
  | nil _ => exact .nil (by simp)
  | cons _ hs ih =>
    refine .cons ?_ ih
    rw [Bool.and_eq_true, hs.headD]
    simp

theorem Tells.someChars (h : Tells P cs bs) :
    Tells (fun cs => ∃ piece rest, cs = piece ++ rest ∧ (∀ c ∈ piece, p c = true) ∧ P rest) cs
      (someChars p cs bs) := by
  induction h with
  | nil h =>
    refine .nil (h.trans ⟨fun hp => ⟨[], [], rfl, nofun, hp⟩, ?_⟩)
    rintro ⟨piece, rest, he, -, hp⟩
    obtain ⟨-, rfl⟩ := List.append_eq_nil_iff.mp he.symm
    exact hp
  | @cons c cs b bs hb hs ih =>
    refine .cons ?_ ih
    rw [Bool.or_eq_true, Bool.and_eq_true, hb, ih.headD]
    constructor
    · rintro (hp | ⟨hc, piece, rest, rfl, hpiece, hp⟩)
      · exact ⟨[], c :: cs, rfl, nofun, hp⟩
      · exact ⟨c :: piece, rest, rfl, List.forall_mem_cons.mpr ⟨hc, hpiece⟩, hp⟩
    · rintro ⟨piece, rest, he, hpiece, hp⟩
      cases piece with
      | nil =>
        obtain rfl : c :: cs = rest := he
        exact .inl hp
      | cons d piece =>
        obtain ⟨rfl, rfl⟩ := List.cons.inj he
        have hall := List.forall_mem_cons.mp hpiece
        exact .inr ⟨hall.1, piece, rest, rfl, hall.2, hp⟩

end

/-- Going backwards through a pattern, each item takes the suffixes that the items behind it accept
to those that are accepted with it. -/
theorem tells_acceptsSuffixes (cs : List Char) (ws : Pattern) :
    Tells (Cut Wildcard.StandsInLineFor ws) cs (Pattern.acceptsSuffixes cs ws) := by
  induction ws with
  | nil => exact (tells_eq_nil cs).congr fun _ => cut_nil.symm
  | cons w ws ih =>
    cases w with
    | anywhere => exact ih.someChars.congr fun _ => (cut_cons_someChars standsInLineFor_anywhere).symm
    | withinName => exact ih.someChars.congr fun _ => (cut_cons_someChars standsInLineFor_withinName).symm
    | oneChar => exact ih.oneChar.congr fun _ => (cut_cons_oneChar standsInLineFor_oneChar).symm
    | char c => exact ih.oneChar.congr fun _ => (cut_cons_oneChar (standsInLineFor_char c)).symm

theorem accepts_iff_cut {ws : Pattern} {cs : List Char} :
    ws.accepts cs = true ↔ Cut Wildcard.StandsInLineFor ws cs :=
  (tells_acceptsSuffixes cs ws).headD

theorem fits_iff_accepted {pattern path : String} (hp : pattern ≠ "") :
    fits pattern path = true ↔ Accepted Wildcard.StandsInLineFor pattern path := by
  have hempty : pattern.isEmpty = false := by simpa using hp
  have hread : ∀ subject : String, (Pattern.ofChars pattern.toList).accepts subject.toList = true ↔
      ∃ items, Reads pattern.toList items ∧ Cut Wildcard.StandsInLineFor items subject.toList := by
    intro subject
    simp only [reads_iff, exists_eq_left, accepts_iff_cut]
  have hsubject : ∀ subject : String,
      (if pattern.contains '/' then some path else fileName? path) = some subject ↔
        Subject pattern path subject := by
    intro subject
    rw [String.contains_char_eq]
    by_cases hs : '/' ∈ pattern.toList
    · simp only [hs, decide_true, if_true, Option.some.injEq]
      constructor
      · rintro rfl
        exact .whole hs
      · rintro (_ | ⟨hn, _⟩)
        · rfl
        · exact absurd hs hn
    · simp only [hs, decide_false, Bool.false_eq_true, if_false]
      constructor
      · exact .name hs
      · rintro (hw | ⟨_, hn⟩)
        · exact absurd hw hs
        · exact hn
  simp only [fits, hempty, Bool.false_eq_true, if_false, Option.any_eq_true, hsubject, hread]
  exact exists_congr fun subject => exists_and_left.symm

theorem Cut.imp {stands stands' : Wildcard → List Char → Prop} {ws : Pattern} {cs : List Char}
    (h : Cut stands ws cs)
    (hi : ∀ w ∈ ws, ∀ piece, (∀ c ∈ piece, c ∈ cs) → stands w piece → stands' w piece) :
    Cut stands' ws cs := by
  induction ws generalizing cs with
  | nil => exact cut_nil.mpr (cut_nil.mp h)
  | cons w ws ih =>
    obtain ⟨piece, rest, rfl, hw, hr⟩ := cut_cons.mp h
    have hpiece := hi w (by simp) piece (fun c hc => by simp [hc]) hw
    have hrest := ih hr fun u hu q hq => hi u (by simp [hu]) q fun c hc => by simp [hq c hc]
    exact cut_cons.mpr ⟨piece, rest, rfl, hpiece, hrest⟩

/-- The end of a line matters only to `**`, and only if there is one. -/
theorem accepted_inLine_iff {pattern path : String}
    (h : (∀ subject, Subject pattern path subject → '\n' ∉ subject.toList) ∨
      ∀ items, Reads pattern.toList items → Wildcard.anywhere ∉ items) :
    Accepted Wildcard.StandsInLineFor pattern path ↔ Accepted Wildcard.StandsFor pattern path := by
  constructor
  · rintro ⟨subject, items, hs, hr, hc⟩
    exact ⟨subject, items, hs, hr, hc.imp fun _ _ _ _ hw => hw.1⟩
  · rintro ⟨subject, items, hs, hr, hc⟩
    refine ⟨subject, items, hs, hr, hc.imp fun w hw piece hpiece hstands => ⟨hstands, ?_⟩⟩
    rintro rfl hline
    rcases h with h | h
    · exact h subject hs (hpiece '\n' hline)
    · exact h items hr hw

end Path

open FieldPatch.Path

/-- A change without a pattern, or with an empty one, is for all files. Every other pattern has one
reading, and the change is for a file if and only if the file name, or the whole path if there is
a slash in the pattern, can be cut into stretches for the items of that reading, where `**` stands
for no stretch with a line feed. If there is no `**`, or no line feed to cross, it stands for all
stretches there are. -/
theorem Order.isForFile_iff_cut (o : Order) (path : String) :
    (o.files.getD "" = "" → o.isForFile path = true) ∧
    ∀ pattern, o.files = some pattern → pattern ≠ "" →
      (∃! items, Reads pattern.toList items) ∧
      (o.isForFile path = true ↔ Accepted Wildcard.StandsInLineFor pattern path) ∧
      ((∀ subject, Subject pattern path subject → '\n' ∉ subject.toList) ∨
          (∀ items, Reads pattern.toList items → Wildcard.anywhere ∉ items) →
        (o.isForFile path = true ↔ Accepted Wildcard.StandsFor pattern path)) := by
  constructor
  · intro h
    unfold isForFile
    cases hf : o.files with
    | none => rfl
    | some pattern =>
      obtain rfl : pattern = "" := by simpa [hf] using h
      rfl
  · intro pattern hf hp
    have hfits : o.isForFile path = true ↔ Accepted Wildcard.StandsInLineFor pattern path := by
      rw [← fits_iff_accepted hp, isForFile, hf]
      rfl
    refine ⟨?_, hfits, fun h => hfits.trans (accepted_inLine_iff h)⟩
    exact ⟨Pattern.ofChars pattern.toList, reads_ofChars _, fun ws hw => reads_iff.mp hw⟩

-- of three stars the first two are one item, and the last one may stand for nothing
example : (Pattern.ofChars "src/***.rs".toList).accepts "src/a/b.rs".toList = true := by
  decide +kernel

/-- Two stars alone do not accept a file whose name has a line feed. -/
theorem Order.line_feed_not_crossed :
    ¬ ∀ (o : Order) (pattern path : String), o.files = some pattern → pattern ≠ "" →
      (o.isForFile path = true ↔ Accepted Wildcard.StandsFor pattern path) := by
  intro h
  let o : Order := ⟨none, some "**", none, ".", .unset⟩
  have hname : fileName? "a\nb" = some "a\nb" := by decide +kernel
  have hfalse : o.isForFile "a\nb" = false := by
    show fits "**" "a\nb" = false
    rw [fits, String.contains_char_eq]
    decide +kernel
  have hreads : Reads "**".toList [.anywhere] := .anywhere .nil
  have hcut : Cut Wildcard.StandsFor [.anywhere] "a\nb".toList :=
    ⟨["a\nb".toList], by simp, .cons trivial .nil⟩
  have hall : Accepted Wildcard.StandsFor "**" "a\nb" :=
    ⟨"a\nb", [.anywhere], .name (by decide) hname, hreads, hcut⟩
  have htrue := (h o "**" "a\nb" rfl (by decide)).mpr hall
  rw [hfalse] at htrue
  cases htrue

end FieldPatch
