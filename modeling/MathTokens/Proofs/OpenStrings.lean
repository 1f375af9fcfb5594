import MathTokens.Proofs.Decomposition

/-!
# Strings that are not closed

Reading fails only at the last quote of a text, and whether it does can be told from the text before
that quote. Cutting the text off there changes no lexeme, although the search for a breakpoint goes
past the quote: a word that reached the quote would go on over it, and a minus sign would only be
taken for the sign of digits that run up to the quote, which are such a word.
-/

namespace MathTokens

/-- The last quote of `t` is at the offset `p`. -/
structure LastQuote (t : Text) (p : Nat) : Prop where
  at_offset : t[p]? = some quote
  last : quote ∉ t.drop (p + 1)

theorem lastQuote_append {before tail : Text} (h : quote ∉ tail) :
    LastQuote (before ++ quote :: tail) before.length where
  at_offset := by simp
  last := by
    rw [List.append_cons, show before.length + 1 = (before ++ [quote]).length by simp, List.drop_left]
    exact h

theorem LastQuote.split {t : Text} {p : Nat} (h : LastQuote t p) :
    ∃ tail, t = t.take p ++ quote :: tail ∧ quote ∉ tail := by
  obtain ⟨hp, hq⟩ := List.getElem?_eq_some_iff.mp h.at_offset
  refine ⟨t.drop (p + 1), ?_, h.last⟩
  rw [← hq, List.getElem_cons_drop, List.take_append_drop]

/-! ## Lexemes before a quote -/

section
variable {l : Lexeme} {rest tail : Text}

theorem Stands.not_isWord_of_quote (h : Stands l (quote :: tail)) : ¬l.content.kind.IsWord := fun hk =>
  not_atBreak_quote (h.atBreak hk)

theorem not_isDecimal_of_quote {a b : Text} : ¬IsDecimal ('-' :: (a ++ quote :: b)) := by
  rintro ⟨d, hd⟩
  have := hd.chars_minus.2 quote (by simp)
  revert this
  decide

theorem Stands.append_quote (h : Stands l rest) (hw : rest = [] → ¬l.content.kind.IsWord) :
    Stands l (rest ++ quote :: tail) := by
  refine h.stands_iff.mpr ⟨fun hk => (h.atBreak hk).append (fun e => hw e hk) _, fun hraw => ?_⟩
  rcases takeWhile_append_cases rest (quote :: tail) with hrun | ⟨-, hrun⟩
  · rw [hrun]
    exact h.not_isDecimal_minus hraw
  · -- the search goes over the quote, which is in no decimal
    have hquote : (quote :: tail).takeWhile (!isBreakpoint ·) = quote :: tail.takeWhile (!isBreakpoint ·) :=
      List.takeWhile_cons_of_pos (by decide)
    rw [hrun, hquote]
    exact not_isDecimal_of_quote

theorem Stands.of_append_quote (h : Stands l (rest ++ quote :: tail)) (hm : ¬IsDecimal ('-' :: rest)) :
    Stands l rest := by
  refine h.stands_iff.mpr ⟨fun hk => (h.atBreak hk).of_append, fun hraw => ?_⟩
  rcases takeWhile_append_cases rest (quote :: tail) with hrun | ⟨hall, -⟩
  · rw [← hrun]
    exact h.not_isDecimal_minus hraw
  · rwa [hall]

theorem Stands.not_digits (h : Stands l (rest ++ quote :: tail)) :
    ¬∀ c ∈ l.raw ++ rest, c.isDigit ∨ c = '.' := by
  intro hall
  have stop : ¬AtBreak (rest ++ quote :: tail) := by
    intro hs
    cases rest with
    | nil => exact not_atBreak_quote hs
    | cons c rest => exact not_isBreak_of_isDigit (hall c (by simp)) (hs c rfl)
  cases h with
  | string hi => exact absurd (hall quote (by simp)) (by decide)
  | number _ hs => exact stop hs
  | @symbol c _ hc =>
    have := hall c (by simp)
    rcases hc with rfl | rfl | rfl <;> revert this <;> decide
  | minus => exact absurd (hall '-' (by simp)) (by decide)
  | name _ _ _ _ hs => exact stop hs

end

/-! ## Pieces before a quote -/

section
variable {ps : List Piece} {t rest gap tail : Text}

theorem Reads.of_append_quote (h : Reads ps t (gap ++ quote :: tail)) (hg : IsGap gap) :
    Reads ps (ps.flatMap Piece.text ++ gap) gap ∧ ¬IsDecimal ('-' :: (ps.flatMap Piece.text ++ gap)) := by
  generalize he : gap ++ quote :: tail = rest at h
  -- the second part is what the induction needs of the pieces after a minus sign
  induction h with
  | nil =>
    refine ⟨.nil, fun ⟨d, hd⟩ => ?_⟩
    obtain ⟨hne, hall⟩ := hd.chars_minus
    obtain ⟨c, u, rfl⟩ := List.exists_cons_of_ne_nil hne
    have := hall c (by simp)
    rcases hg c (by simp) with rfl | rfl <;> revert this <;> decide
  | @cons p ps t more rest hp hr ih =>
    subst he
    obtain ⟨ihr, ihd⟩ := ih rfl
    have hmore : more = ps.flatMap Piece.text ++ gap ++ quote :: tail := by
      rw [hr.eq, List.append_assoc]
    have hst : Stands p.lexeme (ps.flatMap Piece.text ++ gap ++ quote :: tail) := hmore ▸ hp.stands
    rw [List.flatMap_cons, List.append_assoc]
    refine ⟨.cons ⟨rfl, hp.gap, hst.of_append_quote ihd⟩ ihr, fun ⟨d, hd⟩ => ?_⟩
    refine hst.not_digits fun c hc => hd.chars_minus.2 c ?_
    rw [Piece.text, List.append_assoc]
    exact List.mem_append_right _ hc

theorem Reads.append_quote (h : Reads ps t rest)
    (hw : rest = [] → ∀ p, ps.getLast? = some p → ¬p.lexeme.content.kind.IsWord) :
    Reads ps (t ++ quote :: tail) (rest ++ quote :: tail) := by
  induction h with
  | nil => exact .nil
  | @cons p ps t more rest hp hr ih =>
    have hst : Stands p.lexeme (more ++ quote :: tail) := by
      refine hp.stands.append_quote fun he => ?_
      subst he
      -- nothing can be read from an empty text, so the piece is the last one
      cases hr with
      | nil => exact hw rfl p rfl
      | cons hq _ => exact absurd hq (not_opens_of_isGap (by simp [IsGap]))
    refine .cons ⟨by rw [hp.eq, List.append_assoc], hp.gap, hst⟩ (ih fun he q hq => hw he q ?_)
    rw [List.getLast?_cons, hq]
    rfl

theorem Reads.last_not_isWord (h : Reads ps t (quote :: tail)) :
    ∀ p, ps.getLast? = some p → ¬p.lexeme.content.kind.IsWord := by
  intro p hp
  obtain ⟨qs, rfl⟩ := List.getLast?_eq_some_iff.mp hp
  obtain ⟨middle, -, hopens⟩ := h.of_concat
  exact hopens.stands.not_isWord_of_quote

end

/-! ## The whole text -/

section
variable {source gap tail : Text} {ps : List Piece}

theorem last_token_iff {n : Nat} :
    (∀ t, (Piece.tokens [] ps).getLast? = some t → t.stop.offset = n → ¬t.content.kind.IsWord) ↔
      (n = (ps.flatMap Piece.text).length → ∀ p, ps.getLast? = some p →
        ¬p.lexeme.content.kind.IsWord) := by
  rcases List.eq_nil_or_concat ps with rfl | ⟨ps, p, rfl⟩
  · simp [Piece.tokens]
  · have stop : (p.token (ps.flatMap Piece.text)).stop.offset =
        ((ps.concat p).flatMap Piece.text).length := by
      simp [Piece.token, Token.after, Position.after, Piece.text]
    rw [← stop]
    simp only [List.concat_eq_append, Piece.tokens_append, Piece.tokens, List.nil_append,
      List.getLast?_concat, Option.some.injEq, forall_eq']
    exact ⟨fun h e => h e.symm, fun h e => h e.symm⟩

theorem BreaksOff.lastQuote (h : BreaksOff source ps gap tail) :
    LastQuote source (ps.flatMap Piece.text ++ gap).length ∧
      source.take (ps.flatMap Piece.text ++ gap).length = ps.flatMap Piece.text ++ gap := by
  have hs : source = ps.flatMap Piece.text ++ gap ++ quote :: tail := by
    rw [h.reads.eq, List.append_assoc]
  rw [hs, List.take_left]
  exact ⟨lastQuote_append h.tail, rfl⟩

theorem BreaksOff.decomposes (h : BreaksOff source ps gap tail) :
    Decomposes (ps.flatMap Piece.text ++ gap) ps gap ∧
      (gap = [] → ∀ p, ps.getLast? = some p → ¬p.lexeme.content.kind.IsWord) := by
  refine ⟨⟨(h.reads.of_append_quote h.gap).1, h.gap⟩, fun hg => ?_⟩
  subst hg
  exact h.reads.last_not_isWord

theorem Decomposes.breaksOff {t : Text} (h : Decomposes t ps gap) (hq : quote ∉ tail)
    (hw : gap = [] → ∀ p, ps.getLast? = some p → ¬p.lexeme.content.kind.IsWord) :
    BreaksOff (t ++ quote :: tail) ps gap tail :=
  ⟨h.reads.append_quote hw, h.last, hq⟩

theorem BreaksOff.run_eq (h : BreaksOff source ps gap tail) :
    ((Stream.ofText source).run ((Piece.tokens [] ps).length + 1)).1 =
      (Piece.tokens [] ps).map .token ++ [.failed (.unclosed source (ps.flatMap Piece.text ++ gap))] := by
  obtain ⟨h1, h2, h3⟩ := (Stream.at_ofText source).run_of_reads h.reads
  rw [Piece.length_tokens, Stream.run, h1, (h2.next_failed (h3 ▸ h.unclosed)).1]
  rfl

end

/-- **Open strings.** Reading fails exactly if the text before the last quote has tokens and the quote is
not part of a word, and the tokens read before the failure are the tokens of that text. -/
theorem fails_iff_last_quote_opens (source : Text) :
    ((∃ e, Token.listOf source = .error e) ↔
      ∃ p ts, LastQuote source p ∧ Token.listOf (source.take p) = .ok ts ∧
        ∀ t, ts.getLast? = some t → t.stop.offset = p → ¬t.content.kind.IsWord) ∧
    ∀ e, Token.listOf source = .error e →
      ∃ p ts, LastQuote source p ∧ Token.listOf (source.take p) = .ok ts ∧
        e.cause.message = "unterminated string literal".toList ∧ e.source = source ∧
        e.place = (Position.after (source.take p)).toPlace ∧
        ((Stream.ofText source).run (ts.length + 1)).1 = ts.map .token ++ [.failed e] := by
  refine ⟨⟨fun h => ?_, ?_⟩, fun e he => ?_⟩
  · obtain ⟨ps, gap, tail, h⟩ := (listOf_isError_iff source).mp h
    obtain ⟨hq, htake⟩ := h.lastQuote
    obtain ⟨hd, hw⟩ := h.decomposes
    refine ⟨_, _, hq, by rw [htake]; exact hd.listOf_eq, last_token_iff.mpr fun hl => hw ?_⟩
    simpa using hl
  · rintro ⟨p, ts, hq, hts, hw⟩
    obtain ⟨tail, hs, htail⟩ := hq.split
    obtain ⟨ps, gap, hd⟩ := (listOf_isOk_iff _).mp ⟨ts, hts⟩
    obtain rfl : Piece.tokens [] ps = ts := Except.ok.inj (hd.listOf_eq.symm.trans hts)
    have hp : p = (source.take p).length := by
      have := (List.getElem?_eq_some_iff.mp hq.at_offset).1
      rw [List.length_take]
      omega
    have hb := hd.breaksOff htail fun hg => last_token_iff.mp hw (by
      rw [hp, hd.reads.eq, hg, List.append_nil])
    rw [← hs] at hb
    exact (listOf_isError_iff source).mpr ⟨_, _, _, hb⟩
  · obtain ⟨ps, gap, tail, h⟩ := (listOf_isError_iff source).mp ⟨e, he⟩
    obtain rfl : .unclosed source (ps.flatMap Piece.text ++ gap) = e :=
      Except.error.inj (h.listOf_eq.symm.trans he)
    obtain ⟨hq, htake⟩ := h.lastQuote
    refine ⟨_, _, hq, ?_, rfl, rfl, ?_, h.run_eq⟩
    · rw [htake]
      exact h.decomposes.1.listOf_eq
    · rw [htake]
      rfl

/-- A name and a minus sign, a string that is closed, and a quote next to it. -/
theorem fails_iff_last_quote_opens_adjacent :
    let source := ['x', '-', '"', 'a', '"', '"']
    let e : Malformed := ⟨.unterminatedString, ⟨1, 6, 5⟩, source⟩
    Token.listOf source = .error e ∧ ∃ p ts, LastQuote source p ∧
      Token.listOf (source.take p) = .ok ts ∧ e.place = (Position.after (source.take p)).toPlace ∧
      ((Stream.ofText source).run (ts.length + 1)).1 = ts.map .token ++ [.failed e] := by
  intro source e
  have he : Token.listOf source = .error e := by decide +kernel
  obtain ⟨p, ts, hq, hts, -, -, hp, hr⟩ := (fails_iff_last_quote_opens source).2 e he
  exact ⟨he, p, ts, hq, hts, hp, hr⟩

end MathTokens
