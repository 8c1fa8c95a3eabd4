import FieldPatch.Proofs.Selector.Lexeme
import Mathlib.Data.List.Forall2

/-! The cut of a selector into lexemes and the white space behind them. A text has the tokens of
its pieces, and it keeps them when the white space is drawn out or drawn together. -/

namespace FieldPatch.Selector

def Blank (cs : List Char) : Prop := ∀ c ∈ cs, isBlank c = true

theorem blank_nil : Blank [] := List.forall_mem_nil _

/-- A lexeme and the white space up to the next one. -/
structure Piece where
  lexeme : List Char
  token : Token
  gap : List Char
  spells : Spells lexeme token
  blank : Blank gap

def Piece.text (p : Piece) : List Char := p.lexeme ++ p.gap

def uncut (ps : List Piece) : List Char := ps.flatMap Piece.text

/-- The tokens of pieces the first of which stands at a position, and the end behind them. -/
def placed : Nat → List Piece → List Placed
  | position, [] => [⟨position, .finish⟩]
  | position, p :: ps => ⟨position, p.token⟩ :: placed (position + p.text.length) ps

/-- No token goes on with what stands behind it. -/
def Parted : List Piece → Prop
  | [] => True
  | p :: ps => p.token.EndsAt (p.gap ++ uncut ps) ∧ Parted ps

variable {position : Nat} {cs lead : List Char} {ps qs : List Piece} {ts : List Placed}

theorem uncut_nil : uncut [] = [] := rfl

theorem uncut_cons (p : Piece) (ps : List Piece) :
    uncut (p :: ps) = p.lexeme ++ (p.gap ++ uncut ps) := by
  rw [uncut, List.flatMap_cons, Piece.text, List.append_assoc, uncut]

theorem uncut_append (ps qs : List Piece) : uncut (ps ++ qs) = uncut ps ++ uncut qs :=
  List.flatMap_append

theorem uncut_concat (ps : List Piece) (p : Piece) :
    uncut (ps ++ [p]) = uncut ps ++ p.lexeme ++ p.gap := by
  rw [uncut_append, uncut_cons, uncut_nil, List.append_nil, List.append_assoc]

theorem Blank.append {cs ds : List Char} (h : Blank cs) (h' : Blank ds) : Blank (cs ++ ds) :=
  fun c hc => (List.mem_append.mp hc).elim (h c) (h' c)

theorem tokensFrom_append (h : Blank lead) (position : Nat) (cs : List Char) :
    tokensFrom position (lead ++ cs) = tokensFrom (position + lead.length) cs := by
  induction lead generalizing position with
  | nil => rfl
  | cons c lead ih =>
    have hc : isBlank c = true := h c List.mem_cons_self
    rw [List.cons_append, tokensFrom, if_pos hc, ih fun d hd => h d (List.mem_cons_of_mem c hd),
      List.length_cons, Nat.add_assoc, Nat.add_comm 1]

theorem tokensFrom_uncut (h : Parted ps) (position : Nat) :
    tokensFrom position (uncut ps) = .ok (placed position ps) := by
  induction ps generalizing position with
  | nil => rw [uncut_nil, tokensFrom, placed]
  | cons p ps ih =>
    obtain ⟨c, w, hw, hc⟩ := p.spells.exists_cons
    have htaken : lexeme position c (w ++ (p.gap ++ uncut ps)) = .ok (p.token, w.length) :=
      lexeme_of_spells (hw ▸ p.spells) h.1
    have hlength : position + 1 + w.length + p.gap.length = position + p.text.length := by
      rw [Piece.text, hw, List.length_append, List.length_cons]
      omega
    rw [uncut_cons, hw, List.cons_append, tokensFrom, if_neg (by simp [hc]), htaken]
    simp only [ok_bind, List.drop_left, tokensFrom_append p.blank, hlength, ih h.2]
    rfl

/-- A text that is cut into tokens falls into pieces, up to the white space in front. -/
theorem exists_pieces (h : tokensFrom position cs = .ok ts) : ∃ lead ps, Blank lead ∧
    cs = lead ++ uncut ps ∧ Parted ps ∧ ts = placed (position + lead.length) ps := by
  induction position, cs using tokensFrom.induct generalizing ts with
  | case1 position =>
    rw [tokensFrom] at h
    cases h
    exact ⟨[], [], blank_nil, rfl, trivial, rfl⟩
  | case2 position c cs hc ih =>
    rw [tokensFrom, if_pos hc] at h
    obtain ⟨lead, ps, hl, rfl, hp, rfl⟩ := ih h
    refine ⟨c :: lead, ps, List.forall_mem_cons.mpr ⟨hc, hl⟩, rfl, hp, ?_⟩
    rw [List.length_cons, Nat.add_assoc, Nat.add_comm 1]
  | case3 position c cs hc ih =>
    rw [tokensFrom, if_neg hc] at h
    obtain ⟨⟨k, taken⟩, hk, h⟩ := ok_of_bind h
    obtain ⟨us, hus, h⟩ := ok_of_bind h
    cases h
    obtain ⟨w, rest, rfl, rfl, hw, he⟩ := leads_of_lexeme hk
    obtain ⟨gap, ps, hg, hrest, hp, rfl⟩ := ih w.length hus
    rw [List.drop_left] at hrest
    subst hrest
    refine ⟨[], ⟨c :: w, k, gap, hw, hg⟩ :: ps, blank_nil, ?_, ⟨he, hp⟩, ?_⟩
    · rw [uncut_cons]; rfl
    · simp only [placed, Piece.text, List.length_append, List.length_cons, List.length_nil]
      congr 2
      omega

section Placed

theorem length_text_pos (p : Piece) : 0 < p.text.length := by
  obtain ⟨c, w, hw, -⟩ := p.spells.exists_cons
  rw [Piece.text, hw, List.cons_append, List.length_cons]
  exact Nat.succ_pos _

theorem bare_placed (position : Nat) (ps : List Piece) :
    bare (placed position ps) = ps.map Piece.token ++ [.finish] := by
  induction ps generalizing position with
  | nil => rfl
  | cons p ps ih => rw [placed, bare_cons, ih, List.map_cons, List.cons_append]

theorem le_position_of_mem_placed {t : Placed} (h : t ∈ placed position ps) :
    position ≤ t.position := by
  induction ps generalizing position with
  | nil =>
    obtain rfl := List.mem_singleton.mp h
    exact Nat.le_refl _
  | cons p ps ih =>
    rcases List.mem_cons.mp h with rfl | h
    · exact Nat.le_refl _
    · exact Nat.le_trans (Nat.le_add_right _ _) (ih h)

theorem pairwise_placed (position : Nat) (ps : List Piece) :
    (placed position ps).Pairwise fun t u => t.position < u.position := by
  induction ps generalizing position with
  | nil => exact List.pairwise_singleton _ _
  | cons p ps ih =>
    refine List.pairwise_cons.mpr ⟨fun t ht => ?_, ih _⟩
    have hlt := length_text_pos p
    have hle := le_position_of_mem_placed ht
    show position < t.position
    omega

/-- Where a token stands, the text falls into the pieces before it and those from it on. -/
theorem exists_append_of_placed {before after : List Placed} {t : Placed}
    (h : placed position ps = before ++ t :: after) : ∃ ps₁ ps₂, ps = ps₁ ++ ps₂ ∧
      t.position = position + (uncut ps₁).length ∧ t :: after = placed t.position ps₂ := by
  induction before generalizing position ps with
  | nil =>
    refine ⟨[], ps, rfl, ?_, ?_⟩
    · cases ps <;> cases h <;> rfl
    · cases ps <;> cases h <;> rfl
  | cons u before ih =>
    cases ps with
    | nil => simp [placed] at h
    | cons p ps =>
      obtain ⟨-, h⟩ := List.cons.inj h
      obtain ⟨ps₁, ps₂, rfl, hpos, hps⟩ := ih h
      refine ⟨p :: ps₁, ps₂, rfl, ?_, hps⟩
      rw [hpos, uncut_cons, ← List.append_assoc, List.length_append, ← Piece.text, Nat.add_assoc]

end Placed

/-- The same lexeme with other white space behind it, which is none only if it was none. -/
def Piece.Respaced (p q : Piece) : Prop :=
  q.lexeme = p.lexeme ∧ q.token = p.token ∧ (p.gap ≠ [] → q.gap ≠ [])

theorem endsAt_append_of_blank {gap : List Char} (hg : Blank gap) (hne : gap ≠ []) (k : Token)
    (rest : List Char) : k.EndsAt (gap ++ rest) := by
  obtain ⟨c, gap, rfl⟩ := List.exists_cons_of_ne_nil hne
  rintro d ⟨⟩
  exact Token.goesOnWith_of_isBlank (hg c List.mem_cons_self) k

theorem endsAt_blank {gap : List Char} (hg : Blank gap) (k : Token) : k.EndsAt gap := by
  by_cases hne : gap = []
  · subst hne
    rintro d ⟨⟩
  · simpa using endsAt_append_of_blank hg hne k []

theorem head?_uncut (h : List.Forall₂ Piece.Respaced ps qs) :
    (uncut qs).head? = (uncut ps).head? := by
  cases h with
  | nil => rfl
  | @cons p q ps qs hpq _ =>
    obtain ⟨c, w, hw, -⟩ := p.spells.exists_cons
    rw [uncut_cons, uncut_cons, hpq.1, hw]
    rfl

theorem Parted.respaced (h : List.Forall₂ Piece.Respaced ps qs) (hp : Parted ps) : Parted qs := by
  induction h with
  | nil => trivial
  | @cons p q ps qs hpq hrest ih =>
    refine ⟨?_, ih hp.2⟩
    by_cases hq : q.gap = []
    · have hpg : p.gap = [] := by_contra fun hne => hpq.2.2 hne hq
      have hends := hp.1
      rw [hpg, List.nil_append, Token.EndsAt, ← head?_uncut hrest, ← hpq.2.1] at hends
      rwa [hq]
    · exact endsAt_append_of_blank q.blank hq _ _

theorem map_token_respaced (h : List.Forall₂ Piece.Respaced ps qs) :
    qs.map Piece.token = ps.map Piece.token := by
  induction h with
  | nil => rfl
  | cons hpq _ ih => rw [List.map_cons, List.map_cons, hpq.2.1, ih]

theorem forall₂_respaced_refl (ps : List Piece) : List.Forall₂ Piece.Respaced ps ps :=
  List.forall₂_same.mpr fun _ _ => ⟨rfl, rfl, id⟩

theorem tokens_ofList (cs : List Char) : tokens (String.ofList cs) = tokensFrom 0 cs := by
  rw [tokens, String.toList_ofList]

/-- A spelling alone, with or without white space behind it, is cut into its token. -/
theorem tokens_of_spells {w gap : List Char} {k : Token} (hw : Spells w k) (hg : Blank gap) :
    tokens (String.ofList (w ++ gap)) = .ok [⟨0, k⟩, ⟨(w ++ gap).length, .finish⟩] := by
  let p : Piece := ⟨w, k, gap, hw, hg⟩
  have hp : Parted [p] := ⟨by simpa [uncut] using endsAt_blank hg k, trivial⟩
  have huncut : uncut [p] = w ++ gap := by simp [uncut, p, Piece.text]
  have hread := tokensFrom_uncut hp 0
  rw [huncut] at hread
  rw [tokens_ofList, hread, placed, placed, Nat.zero_add, Piece.text]

/-- White space at the end of a text with a lexeme before it lies behind that lexeme. -/
theorem exists_gap_eq {a gap u g : List Char} (ha : ∀ c ∈ a.getLast?, isBlank c = false)
    (hg : Blank g) (h : u ++ g = a ++ gap) : ∃ x, u = a ++ x ∧ gap = x ++ g := by
  rcases List.append_eq_append_iff.mp h with ⟨x, rfl, rfl⟩ | ⟨x, rfl, rfl⟩
  · cases hx : x.getLast? with
    | none => exact ⟨[], by simp [List.getLast?_eq_none_iff.mp hx]⟩
    | some c =>
      have hc := ha c (by simp [List.getLast?_append, hx])
      rw [hg c (List.mem_append_left _ (List.mem_of_getLast? hx))] at hc
      cases hc
  · exact ⟨x, rfl, rfl⟩

variable {s : String}

theorem exists_pieces_of_tokens (h : tokens s = .ok ts) : ∃ lead ps, Blank lead ∧
    s.toList = lead ++ uncut ps ∧ Parted ps ∧ ts = placed lead.length ps := by
  simpa using exists_pieces h

theorem tokens_respaced {lead' : List Char} (hl : Blank lead') (hp : Parted ps)
    (h : List.Forall₂ Piece.Respaced ps qs) (position : Nat) : ∃ us,
      tokens (String.ofList (lead' ++ uncut qs)) = .ok us ∧ bare us = bare (placed position ps) := by
  refine ⟨placed (0 + lead'.length) qs, ?_, ?_⟩
  · rw [tokens_ofList, tokensFrom_append hl, tokensFrom_uncut (hp.respaced h)]
  · rw [bare_placed, bare_placed, map_token_respaced h]

/-- White space put in front of a token, and white space there replaced by other white space,
leaves the tokens as they are. -/
theorem tokens_of_respaced_before (h : tokens s = .ok ts) {t : Placed} (ht : t ∈ ts)
    {u gap gap' v : List Char} (hs : s.toList = u ++ gap ++ v) (hu : (u ++ gap).length = t.position)
    (hg : Blank gap) (hg' : Blank gap') (hkept : gap ≠ [] → gap' ≠ []) :
    ∃ us, tokens (String.ofList (u ++ gap' ++ v)) = .ok us ∧ bare us = bare ts := by
  obtain ⟨lead, ps, hl, hcs, hp, rfl⟩ := exists_pieces_of_tokens h
  obtain ⟨before, after, hbefore⟩ := List.append_of_mem ht
  obtain ⟨ps₁, ps₂, rfl, hpos, -⟩ := exists_append_of_placed hbefore
  rw [uncut_append, ← List.append_assoc, hs] at hcs
  obtain ⟨hfront, rfl⟩ := List.append_inj hcs (by rw [hu, hpos, List.length_append])
  -- white space in front of the first token belongs to no piece, any other to the last one before it
  rcases List.eq_nil_or_concat ps₁ with rfl | ⟨qs, p, rfl⟩
  · have hlead : Blank (u ++ gap') := by
      rw [uncut_nil, List.append_nil] at hfront
      exact Blank.append (fun c hc => hl c (hfront ▸ List.mem_append_left _ hc)) hg'
    exact tokens_respaced hlead hp (forall₂_respaced_refl _) _
  · rw [List.concat_eq_append] at hp hfront ⊢
    rw [uncut_concat, ← List.append_assoc, ← List.append_assoc] at hfront
    have hlast : ∀ c ∈ (lead ++ uncut qs ++ p.lexeme).getLast?, isBlank c = false := by
      obtain ⟨c, w, hw, -⟩ := p.spells.exists_cons
      have hne : p.lexeme ≠ [] := by simp [hw]
      rw [List.getLast?_append_of_ne_nil _ hne]
      exact p.spells.isBlank_getLast
    obtain ⟨x, rfl, hgap⟩ := exists_gap_eq hlast hg hfront
    have hx : Blank (x ++ gap') :=
      Blank.append (fun c hc => p.blank c (hgap ▸ List.mem_append_left _ hc)) hg'
    let q : Piece := ⟨p.lexeme, p.token, x ++ gap', p.spells, hx⟩
    have hpq : p.Respaced q := by
      refine ⟨rfl, rfl, fun hne => ?_⟩
      by_cases hempty : gap = []
      · exact List.append_ne_nil_of_left_ne_nil (by simpa [hgap, hempty] using hne) _
      · exact List.append_ne_nil_of_right_ne_nil _ (hkept hempty)
    have hrespaced : List.Forall₂ Piece.Respaced (qs ++ [p] ++ ps₂) (qs ++ [q] ++ ps₂) :=
      List.rel_append (List.rel_append (forall₂_respaced_refl qs) (.cons hpq .nil))
        (forall₂_respaced_refl ps₂)
    have htext : lead ++ uncut (qs ++ [q] ++ ps₂) =
        lead ++ uncut qs ++ p.lexeme ++ x ++ gap' ++ uncut ps₂ := by
      rw [uncut_append, uncut_concat]
      simp only [q, List.append_assoc]
    exact htext ▸ tokens_respaced hl hp hrespaced _

theorem placed_eq_append (position : Nat) (ps : List Piece) : ∃ before,
    placed position ps = before ++ [⟨position + (uncut ps).length, .finish⟩] ∧
      ∀ t ∈ before, t.token ≠ .finish := by
  induction ps generalizing position with
  | nil => exact ⟨[], rfl, List.forall_mem_nil _⟩
  | cons p ps ih =>
    obtain ⟨before, hbefore, hne⟩ := ih (position + p.text.length)
    refine ⟨⟨position, p.token⟩ :: before, ?_, List.forall_mem_cons.mpr ⟨p.spells.ne_finish, hne⟩⟩
    rw [placed, hbefore, uncut_cons, ← List.append_assoc, List.length_append, ← Piece.text,
      Nat.add_assoc, List.cons_append]

theorem exists_piece_between {lead : List Char} {before after : List Placed} {t u : Placed}
    (h : placed lead.length ps = before ++ t :: u :: after) : ∃ p : Piece,
      ((lead ++ uncut ps).take u.position).drop t.position = p.lexeme ++ p.gap ∧
        p.token = t.token := by
  obtain ⟨ps₁, ps₂, rfl, hpos, hps⟩ := exists_append_of_placed h
  cases ps₂ with
  | nil => simp [placed] at hps
  | cons p ps₃ =>
    obtain ⟨ht, hu⟩ := List.cons.inj hps
    have hupos : u.position = t.position + p.text.length := by
      cases ps₃ <;> exact congrArg Placed.position (List.cons.inj hu).1
    have hfront : (lead ++ uncut ps₁).length = t.position := by rw [hpos, List.length_append]
    refine ⟨p, ?_, (congrArg Placed.token ht).symm⟩
    rw [uncut_append, uncut_cons, ← List.append_assoc, ← List.append_assoc p.lexeme, ← Piece.text,
      hupos, ← hfront, List.take_length_add_append, List.drop_left, List.take_left]

/-- The cut of a text that has tokens. They stand at increasing positions, and the end of the text
alone is marked by a token of its own. In front of the first one is white space, and from each of
them up to the next a spelling of it with white space behind, which is cut into that token if it
stands alone. So white space may be put in front of a token or replaced there by other white space:
the tokens stay the same. -/
theorem tokens_cut_apart (h : tokens s = .ok ts) :
    (ts.Pairwise fun t u => t.position < u.position) ∧
    (∃ before, ts = before ++ [⟨s.length, .finish⟩] ∧ ∀ t ∈ before, t.token ≠ .finish) ∧
    (∀ t ∈ ts.head?, Blank (s.toList.take t.position)) ∧
    (∀ before t u after, ts = before ++ t :: u :: after → ∃ w gap,
      (s.toList.take u.position).drop t.position = w ++ gap ∧ Spells w t.token ∧ Blank gap ∧
        tokens (String.ofList (w ++ gap)) = .ok [⟨0, t.token⟩, ⟨(w ++ gap).length, .finish⟩] ∧
        tokens (String.ofList w) = .ok [⟨0, t.token⟩, ⟨w.length, .finish⟩]) ∧
    (∀ t ∈ ts, ∀ u gap gap' v, s.toList = u ++ gap ++ v → (u ++ gap).length = t.position →
      Blank gap → Blank gap' → (gap ≠ [] → gap' ≠ []) →
      ∃ us, tokens (String.ofList (u ++ gap' ++ v)) = .ok us ∧ bare us = bare ts) := by
  obtain ⟨lead, ps, hl, hcs, hp, hts⟩ := exists_pieces_of_tokens h
  have hlength : lead.length + (uncut ps).length = s.length := by
    rw [← String.length_toList, hcs, List.length_append]
  refine ⟨hts ▸ pairwise_placed _ _, ?_, ?_, ?_, ?_⟩
  · rw [hts, ← hlength]
    exact placed_eq_append _ _
  · intro t ht
    have hpos : t.position = lead.length := by
      subst hts
      cases ps <;> cases ht <;> rfl
    rw [hpos, hcs, List.take_left]
    exact hl
  · intro before t u after hadjacent
    obtain ⟨p, htext, htoken⟩ := exists_piece_between (hts.symm.trans hadjacent)
    have hspells : Spells p.lexeme t.token := htoken ▸ p.spells
    have halone := tokens_of_spells hspells blank_nil
    rw [List.append_nil] at halone
    exact ⟨p.lexeme, p.gap, hcs ▸ htext, hspells, p.blank, tokens_of_spells hspells p.blank, halone⟩
  · intro t ht u gap gap' v hs hu hg hg' hkept
    exact tokens_of_respaced_before h ht hs hu hg hg' hkept

theorem tokens_cut_apart_spaced :
    tokens " .a[ -1]" = .ok [⟨1, .dot⟩, ⟨2, .word "a"⟩, ⟨3, .openBracket⟩, ⟨5, .integer (-1)⟩,
      ⟨7, .closeBracket⟩, ⟨8, .finish⟩] ∧
    ∃ us, tokens " .a  [ -1]" = .ok us ∧
      bare us = [.dot, .word "a", .openBracket, .integer (-1), .closeBracket, .finish] := by
  have hread : tokens " .a[ -1]" = .ok [⟨1, .dot⟩, ⟨2, .word "a"⟩, ⟨3, .openBracket⟩,
      ⟨5, .integer (-1)⟩, ⟨7, .closeBracket⟩, ⟨8, .finish⟩] := by
    decide +kernel
  obtain ⟨-, -, -, -, hrespaced⟩ := tokens_cut_apart hread
  exact ⟨hread, hrespaced ⟨3, .openBracket⟩ (by simp) [' ', '.', 'a'] [] [' ', ' ']
    ['[', ' ', '-', '1', ']'] rfl rfl blank_nil (by simp [Blank, isBlank]) (absurd · (by simp))⟩

end FieldPatch.Selector
