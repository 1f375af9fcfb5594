import MathTokens.Proofs.Lexemes
import MathTokens.Proofs.Positions

/-!
# Cutting a text into pieces

A piece is a lexeme with the gap before it. `Reads ps t rest` says that the text `t` starts with the
pieces `ps` and that `rest` is left. Each piece has to stand before all the text that follows it,
not only before the next piece. From every text some pieces can be read until only a gap is left or
a gap and a string that is not closed, and there is one way to do so.
-/

namespace MathTokens

structure Piece where
  gap : Text
  lexeme : Lexeme
deriving DecidableEq

namespace Piece

def text (p : Piece) : Text :=
  p.gap ++ p.lexeme.raw

def token (before : Text) (p : Piece) : Token :=
  .after (before ++ p.gap) p.lexeme

/-- The tokens of pieces that the text `before` stands before. -/
def tokens : Text → List Piece → List Token
  | _, [] => []
  | before, p :: ps => p.token before :: tokens (before ++ p.text) ps

/-- The piece `p` stands at the front of `t`, and `rest` is left. -/
structure Opens (p : Piece) (t rest : Text) : Prop where
  eq : t = p.text ++ rest
  gap : IsGap p.gap
  stands : Stands p.lexeme rest

end Piece

inductive Reads : List Piece → Text → Text → Prop
  | nil {t} : Reads [] t t
  | cons {p ps t more rest} : p.Opens t more → Reads ps more rest → Reads (p :: ps) t rest

/-- After the gap `gap` a string is opened in `t`, and `tail` does not close it. -/
structure Unclosed (t gap tail : Text) : Prop where
  eq : t = gap ++ quote :: tail
  gap : IsGap gap
  tail : quote ∉ tail

theorem Piece.length_tokens (before : Text) (ps : List Piece) :
    (tokens before ps).length = ps.length := by
  induction ps generalizing before with
  | nil => rfl
  | cons p ps ih => rw [tokens, List.length_cons, ih, List.length_cons]

theorem Piece.tokens_append (before : Text) (ps qs : List Piece) :
    tokens before (ps ++ qs) = tokens before ps ++ tokens (before ++ ps.flatMap text) qs := by
  induction ps generalizing before with
  | nil => simp [tokens]
  | cons p ps ih =>
    rw [List.cons_append, tokens, tokens, ih, List.flatMap_cons, List.append_assoc, List.cons_append]

/-! ## The first piece -/

section
variable {p p' : Piece} {t rest rest' : Text}

theorem Piece.Opens.read? (h : p.Opens t rest) : ∃ c more, t.takeWhile isGap = p.gap ∧
    t.dropWhile isGap = c :: more ∧ c :: more = p.lexeme.raw ++ rest ∧
    Lexeme.read? c more = some p.lexeme := by
  obtain ⟨c, more, hcm⟩ := List.exists_cons_of_ne_nil
    (List.append_ne_nil_of_left_ne_nil h.stands.raw_ne_nil rest)
  obtain ⟨hc, hr⟩ := h.stands.read? hcm
  obtain ⟨h1, h2⟩ := takeWhile_isGap (t := c :: more) h.gap (by simpa using hc)
  have ht : t = p.gap ++ c :: more := by rw [h.eq, Piece.text, List.append_assoc, hcm]
  rw [ht]
  exact ⟨c, more, h1, h2, hcm.symm, hr⟩

theorem Piece.Opens.text_ne_nil (h : p.Opens t rest) : p.text ≠ [] :=
  List.append_ne_nil_of_right_ne_nil _ h.stands.raw_ne_nil

theorem Piece.Opens.append_eq (h : p.Opens t rest) (before : Text) :
    before ++ t = before ++ p.gap ++ p.lexeme.raw ++ rest := by
  rw [h.eq, Piece.text]
  simp only [List.append_assoc]

theorem Piece.Opens.unique (h : p.Opens t rest) (h' : p'.Opens t rest') : p = p' ∧ rest = rest' := by
  obtain ⟨c, more, hg, hd, he, hr⟩ := h.read?
  obtain ⟨c', more', hg', hd', he', hr'⟩ := h'.read?
  rw [hd] at hd'
  cases hd'
  have hl : p.lexeme = p'.lexeme := Option.some.inj (hr.symm.trans hr')
  refine ⟨?_, ?_⟩
  · cases p; cases p'
    simp_all
  · rw [hl] at he
    exact List.append_cancel_left (he.symm.trans he')

theorem Piece.Opens.length_lt (h : p.Opens t rest) : rest.length < t.length := by
  have := List.length_pos_iff.mpr h.stands.raw_ne_nil
  rw [h.eq, Piece.text, List.length_append, List.length_append]
  omega

theorem not_opens_of_isGap (ht : IsGap t) : ¬p.Opens t rest := by
  intro h
  obtain ⟨c, more, -, hd, -⟩ := h.read?
  have := List.dropWhile_eq_nil_iff.mpr fun x hx => isGap_eq_true_iff.mpr (ht x hx)
  rw [hd] at this
  cases this

theorem Unclosed.dropWhile_eq {gap tail : Text} (h : Unclosed t gap tail) :
    t.takeWhile isGap = gap ∧ t.dropWhile isGap = quote :: tail := by
  rw [h.eq]
  refine takeWhile_isGap h.gap fun c hc => ?_
  cases hc
  decide

theorem isGap_or_opens_or_unclosed (t : Text) :
    IsGap t ∨ (∃ p rest, Piece.Opens p t rest) ∨ ∃ gap tail, Unclosed t gap tail := by
  have split := List.takeWhile_append_dropWhile (p := isGap) (l := t)
  have hg := isGap_takeWhile t
  cases hd : t.dropWhile isGap with
  | nil =>
    rw [hd, List.append_nil] at split
    exact .inl (split ▸ hg)
  | cons c more =>
    rw [hd] at split
    cases hr : Lexeme.read? c more with
    | none =>
      obtain ⟨rfl, hm⟩ := Lexeme.read?_eq_none_iff.mp hr
      exact .inr (.inr ⟨_, _, split.symm, hg, hm⟩)
    | some l =>
      obtain ⟨rest, he, hl⟩ := Lexeme.read?_stands (isGap_head_dropWhile hd) hr
      refine .inr (.inl ⟨⟨t.takeWhile isGap, l⟩, rest, ?_, hg, hl⟩)
      rw [Piece.text, List.append_assoc, ← he, split]

end

/-! ## All the pieces -/

section
variable {ps qs : List Piece} {t rest rest' : Text}

theorem Reads.eq (h : Reads ps t rest) : t = ps.flatMap Piece.text ++ rest := by
  induction h with
  | nil => rfl
  | cons hp _ ih => rw [hp.eq, ih, List.flatMap_cons, List.append_assoc]

theorem Reads.append {u : Text} (h : Reads ps t rest) (h' : Reads qs rest u) :
    Reads (ps ++ qs) t u := by
  induction h with
  | nil => exact h'
  | cons hp _ ih => exact .cons hp (ih h')

theorem Reads.of_concat {p : Piece} (h : Reads (ps ++ [p]) t rest) :
    ∃ middle, Reads ps t middle ∧ p.Opens middle rest := by
  induction ps generalizing t with
  | nil =>
    cases h with
    | cons hp h =>
      cases h
      exact ⟨t, .nil, hp⟩
  | cons q ps ih =>
    cases h with
    | cons hq h =>
      obtain ⟨middle, hps, hp⟩ := ih h
      exact ⟨middle, .cons hq hps, hp⟩

theorem Reads.unique (h : Reads ps t rest) (h' : Reads qs t rest')
    (hr : ∀ p more, ¬Piece.Opens p rest more) (hr' : ∀ p more, ¬Piece.Opens p rest' more) :
    ps = qs ∧ rest = rest' := by
  induction h generalizing qs with
  | nil =>
    cases h' with
    | nil => exact ⟨rfl, rfl⟩
    | cons hq _ => exact absurd hq (hr _ _)
  | cons hp _ ih =>
    cases h' with
    | nil => exact absurd hp (hr' _ _)
    | cons hq h' =>
      obtain ⟨rfl, rfl⟩ := hp.unique hq
      obtain ⟨rfl, rfl⟩ := ih h' hr
      exact ⟨rfl, rfl⟩

theorem exists_reads (t : Text) :
    ∃ ps rest, Reads ps t rest ∧ (IsGap rest ∨ ∃ gap tail, Unclosed rest gap tail) := by
  induction h : t.length using Nat.strongRecOn generalizing t with
  | ind n ih =>
    rcases isGap_or_opens_or_unclosed t with hg | ⟨p, more, hp⟩ | hu
    · exact ⟨[], t, .nil, .inl hg⟩
    · obtain ⟨ps, rest, hr, hend⟩ := ih _ (h ▸ hp.length_lt) more rfl
      exact ⟨p :: ps, rest, .cons hp hr, hend⟩
    · exact ⟨[], t, .nil, .inr hu⟩

end

end MathTokens
