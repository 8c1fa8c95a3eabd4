import FieldPatch.Proofs.Number.Decimal
import FieldPatch.Proofs.Selector.QuotedText
import FieldPatch.Proofs.Selector.Sited

/-! How tokens are spelled. A spelling is read as its token in front of any text that does not go
on with it: characters of a word do not stand right behind a word or an integer. -/

namespace FieldPatch.Selector

/-- At whatever position the text stands, it is cut into these tokens. -/
def Reads (cs : List Char) (ks : List Token) : Prop :=
  ∀ position, ∃ ts, tokensFrom position cs = .ok ts ∧ bare ts = ks

/-- Text that does not go on with a word or an integer in front of it. -/
def Apart (cs : List Char) : Prop := ∀ c ∈ cs.head?, isWordChar c = false

theorem apart_nil : Apart [] := by simp [Apart]

theorem apart_cons {c : Char} (hc : isWordChar c = false) (cs : List Char) : Apart (c :: cs) := by
  simpa [Apart] using hc

theorem isWordChar_of_isDigit {c : Char} (hc : c.isDigit = true) : isWordChar c = true := by
  simp [isWordChar, Char.isAlphanum, hc]

theorem takeWhile_append_of_stops {p : Char → Bool} {w rest : List Char}
    (hw : ∀ c ∈ w, p c = true) (hrest : ∀ c ∈ rest.head?, p c = false) :
    (w ++ rest).takeWhile p = w := by
  rw [List.takeWhile_append_of_pos hw]
  cases rest with
  | nil => simp
  | cons c rest => simp [hrest c rfl]

theorem takeWhile_append_of_apart {p : Char → Bool} (hp : ∀ c, p c = true → isWordChar c = true)
    {w rest : List Char} (hw : ∀ c ∈ w, p c = true) (hrest : Apart rest) :
    (w ++ rest).takeWhile p = w := by
  refine takeWhile_append_of_stops hw fun c hc => ?_
  have hnone : p c ≠ true := fun h => by simpa [hrest c hc] using hp c h
  exact Bool.eq_false_iff.mpr hnone

theorem reads_nil : Reads [] [.finish] :=
  fun position => ⟨[⟨position, .finish⟩], by rw [tokensFrom], rfl⟩

theorem Reads.blank {c : Char} {cs : List Char} {ks : List Token} (h : Reads cs ks)
    (hc : isBlank c = true) : Reads (c :: cs) ks := by
  intro position
  rw [tokensFrom, if_pos hc]
  exact h _

/-- A lexeme is a character `c` and what is taken of the text behind it. -/
theorem Reads.lexeme {c : Char} {w rest : List Char} {k : Token} {ks : List Token}
    (h : Reads rest ks) (hc : isBlank c = false)
    (hk : ∀ position, Selector.lexeme position c (w ++ rest) = .ok (k, w.length)) :
    Reads (c :: (w ++ rest)) (k :: ks) := by
  intro position
  obtain ⟨ts, ht, hb⟩ := h (position + 1 + w.length)
  refine ⟨⟨position, k⟩ :: ts, ?_, by rw [bare_cons, hb]⟩
  rw [tokensFrom, if_neg (by simp [hc]), hk]
  simp only [ok_bind, List.drop_left, ht]
  rfl

def Relation.canonical : Relation → String
  | .equal => "=="
  | .notEqual => "!="

/-- The tokens of one character. -/
def mark? : Char → Option Token
  | '.' => some .dot
  | '|' => some .pipe
  | ':' => some .colon
  | '(' => some .openParen
  | ')' => some .closeParen
  | '[' => some .openBracket
  | ']' => some .closeBracket
  | _ => none

section

variable {rest : List Char} {ks : List Token}

theorem Reads.mark (h : Reads rest ks) {c : Char} {k : Token} (hc : mark? c = some k) :
    Reads (c :: rest) (k :: ks) := by
  unfold mark? at hc
  split at hc <;> cases hc <;> exact h.lexeme (w := []) (by decide) fun _ => rfl

theorem Reads.relation (h : Reads rest ks) (r : Relation) :
    Reads (r.canonical.toList ++ rest) (r.token :: ks) := by
  cases r with
  | equal => exact h.lexeme (c := '=') (w := ['=']) (by decide) fun _ => rfl
  | notEqual => exact h.lexeme (c := '!') (w := ['=']) (by decide) fun _ => rfl

theorem Reads.doubleQuoted (h : Reads rest ks) (s : String) :
    Reads ((doubleQuoted s).toList ++ rest) (.text s false :: ks) := by
  have hs : (Selector.doubleQuoted s).toList ++ rest =
      '"' :: ((s.toList.flatMap escape ++ ['"']) ++ rest) := by
    simp [Selector.doubleQuoted]
  rw [hs]
  refine h.lexeme (by decide) fun position => ?_
  rw [List.append_assoc]
  have hq := quotedText_flatMap_escape position (position + 1) s.toList rest
  show (quotedText '"' position (position + 1) (s.toList.flatMap escape ++ '"' :: rest) >>=
    fun r => _) = _
  simp only [hq, ok_bind, String.ofList_toList, List.length_append]
  rfl

theorem toNat_of_isWordStart {c : Char} (hc : isWordStart c = true) :
    65 ≤ c.toNat ∧ c.toNat ≤ 122 := by
  change (decide (c.val ≥ 'A'.val ∧ c.val ≤ 'Z'.val) ||
    (decide (c.val ≥ 'a'.val) && decide (c.val ≤ 'z'.val)) || c == '_') = true at hc
  simp only [Bool.or_eq_true, Bool.and_eq_true, decide_eq_true_eq, ge_iff_le,
    UInt32.le_iff_toNat_le, beq_iff_eq] at hc
  rcases hc with (⟨hlow, hhigh⟩ | ⟨hlow, hhigh⟩) | rfl
  · exact ⟨hlow, Nat.le_trans hhigh (by decide)⟩
  · exact ⟨Nat.le_trans (by decide) hlow, hhigh⟩
  · decide

theorem toNat_of_isDigit {c : Char} (hc : c.isDigit = true) : 48 ≤ c.toNat ∧ c.toNat ≤ 57 := by
  simp only [Char.isDigit, Bool.and_eq_true, decide_eq_true_eq, ge_iff_le,
    UInt32.le_iff_toNat_le] at hc
  exact hc

theorem isBlank_of_toNat {c : Char} (h : 33 ≤ c.toNat ∧ c.toNat ≤ 122) : isBlank c = false := by
  simp only [isBlank, Bool.or_eq_false_iff, Bool.and_eq_false_iff, decide_eq_false_iff_not,
    beq_eq_false_iff_ne]
  omega

/-- Characters that begin neither an integer nor a word. -/
def marks : List Char := ['.', '|', ',', ':', '(', ')', '[', ']', '=', '!', '"', '\'']

theorem notMem_marks {p : Char → Bool} (hp : marks.any p = false) {c : Char} (hc : p c = true) :
    c ∉ marks :=
  fun hm => List.any_eq_false.mp hp c hm hc

theorem lexeme_of_notMem_marks {c : Char} (hc : c ∉ marks) (position : Nat) (cs : List Char) :
    Selector.lexeme position c cs =
      if c = '-' ∧ startsWithDigit cs then integerToken position c cs
      else if c.isDigit then integerToken position c cs
      else if isWordStart c then
        .ok (.word (String.ofList (c :: cs.takeWhile isWordChar)), (cs.takeWhile isWordChar).length)
      else .error ⟨position, .strayChar c⟩ := by
  have hne : ∀ d ∈ marks, c ≠ d := fun d hd he => hc (he ▸ hd)
  have hquote : ¬ (c = '"' ∨ c = '\'') := not_or.mpr ⟨hne _ (by decide), hne _ (by decide)⟩
  unfold Selector.lexeme
  iterate 10 refine (if_neg (hne _ (by decide))).trans ?_
  exact if_neg hquote

theorem lexeme_of_isWordStart {c : Char} (hc : isWordStart c = true) (position : Nat)
    (cs : List Char) : Selector.lexeme position c cs =
      .ok (.word (String.ofList (c :: cs.takeWhile isWordChar)), (cs.takeWhile isWordChar).length) := by
  have hrange := toNat_of_isWordStart hc
  have hminus : ¬ (c = '-' ∧ startsWithDigit cs) := by
    rintro ⟨rfl, -⟩
    exact absurd hc (by decide)
  have hdigit : ¬ c.isDigit = true := by
    intro hd
    have := toNat_of_isDigit hd
    omega
  rw [lexeme_of_notMem_marks (notMem_marks rfl hc), if_neg hminus, if_neg hdigit, if_pos hc]

theorem lexeme_of_integer {c : Char} {cs : List Char}
    (hc : c.isDigit = true ∨ c = '-' ∧ startsWithDigit cs = true) (position : Nat) :
    Selector.lexeme position c cs = integerToken position c cs := by
  have hstart : (c.isDigit || c == '-') = true := by
    rcases hc with hc | ⟨rfl, -⟩
    · simp [hc]
    · rfl
  have hmark : c ∉ marks := notMem_marks (p := fun d => d.isDigit || d == '-') rfl hstart
  rw [lexeme_of_notMem_marks hmark]
  by_cases hminus : c = '-' ∧ startsWithDigit cs
  · rw [if_pos hminus]
  · rw [if_neg hminus, if_pos (hc.resolve_right hminus)]

theorem Reads.word (h : Reads rest ks) (hrest : Apart rest) {name : String}
    (hn : isIdentifier name = true) : Reads (name.toList ++ rest) (.word name :: ks) := by
  unfold isIdentifier at hn
  cases hcs : name.toList with
  | nil => simp [hcs] at hn
  | cons c cs =>
    rw [hcs, Bool.and_eq_true, List.all_eq_true] at hn
    obtain ⟨hc, hall⟩ := hn
    have hblank : isBlank c = false := by
      have := toNat_of_isWordStart hc
      exact isBlank_of_toNat (by omega)
    have hw : (cs ++ rest).takeWhile isWordChar = cs :=
      takeWhile_append_of_apart (fun _ hd => hd) hall hrest
    refine h.lexeme hblank fun position => ?_
    rw [lexeme_of_isWordStart hc, hw, ← hcs, String.ofList_toList]

theorem Reads.integer (h : Reads rest ks) (hrest : Apart rest) {n : Int}
    (hn : fitsSigned64 n = true) : Reads ((toString n).toList ++ rest) (.integer n :: ks) := by
  obtain ⟨c, w, hcw, hc, hall⟩ := exists_toString_eq_cons n
  have hblank : isBlank c = false := by
    rcases hc with hc | ⟨rfl, -⟩
    · have := toNat_of_isDigit hc
      exact isBlank_of_toNat (by omega)
    · decide
  have hstart : c.isDigit = true ∨ c = '-' ∧ startsWithDigit (w ++ rest) = true := by
    refine hc.imp_right fun ⟨he, hw⟩ => ⟨he, ?_⟩
    obtain ⟨d, ds, rfl⟩ := List.exists_cons_of_ne_nil hw
    exact hall d List.mem_cons_self
  have hw : (w ++ rest).takeWhile Char.isDigit = w :=
    takeWhile_append_of_apart (fun _ => isWordChar_of_isDigit) hall hrest
  have hread := readSigned64?_toString hn
  rw [hcw] at hread ⊢
  refine h.lexeme hblank fun position => ?_
  simp only [lexeme_of_integer hstart, integerToken, hw, hread]

end

end FieldPatch.Selector
