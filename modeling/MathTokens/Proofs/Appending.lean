import MathTokens.Proofs.Adjacency

/-!
# More text behind a text

A lexeme looks ahead to the next breakpoint at most, so text that is put behind a text can only change
its last token. There is one exception. A minus sign and a point behind it are two tokens, and digits
behind them make one number of both.
-/

namespace MathTokens

/-- The text `a`, which has the tokens `ts`, ends so that nothing behind it changes the last of them. -/
inductive Sealed : Text → List Token → Prop
  | empty {ts} : Sealed [] ts
  | character {a c ts} : c = ' ' ∨ c = '\n' ∨ c = ';' ∨ c = '+' ∨ c = '=' → Sealed (a ++ [c]) ts
  | string {a ts t} : t.content.kind = .string → Sealed a (ts ++ [t])

/-! ## The beginning of a decimal -/

theorem Decimal.SpellsUnsigned.take {n : Bool} {u v : Text} {d : Decimal} (h : SpellsUnsigned n (u ++ v) d)
    (hne : u ≠ []) (hpoint : u ≠ ['.']) : ∃ d', SpellsUnsigned n u d' := by
  generalize ht : u ++ v = t at h
  cases h with
  | whole ha =>
    subst ht
    exact ⟨_, .whole (fun c hc => ha c (List.mem_append_left v hc)) hne⟩
  | @pointed a b ha hb hane =>
    rcases List.append_eq_append_iff.mp ht with ⟨w, rfl, -⟩ | ⟨w, rfl, hw⟩
    · exact ⟨_, .whole (fun c hc => ha c (List.mem_append_left w hc)) hne⟩
    · cases w with
      | nil =>
        rw [List.append_nil]
        exact ⟨_, .whole ha hane⟩
      | cons x w =>
        obtain ⟨rfl, rfl⟩ := List.cons.inj hw
        exact ⟨_, .pointed ha (fun c hc => hb c (List.mem_append_left v hc)) hane⟩
  | @fraction b hb =>
    obtain ⟨x, w, rfl⟩ := List.exists_cons_of_ne_nil hne
    obtain ⟨rfl, rfl⟩ := List.cons.inj ht
    have hw : w ≠ [] := fun e => hpoint (by rw [e])
    exact ⟨_, .fraction (fun c hc => hb c (List.mem_append_left v hc)) hw⟩

theorem isDecimal_minus_of_append {u v : Text} (h : IsDecimal ('-' :: (u ++ v))) (hne : u ≠ [])
    (hpoint : u ≠ ['.']) : IsDecimal ('-' :: u) := by
  obtain ⟨d, hd⟩ := h
  cases hd with
  | plain h =>
    have hminus := h.chars '-' (by simp)
    simp at hminus
  | minus h =>
    obtain ⟨d', hd'⟩ := h.take hne hpoint
    exact ⟨d', .minus hd'⟩

/-! ## Lexemes before more text -/

section
variable {l : Lexeme} {rest : Text}

theorem Stands.extend (h : Stands l rest) (hne : rest ≠ []) (hpoint : l.raw = ['-'] → rest ≠ ['.'])
    (b : Text) : Stands l (rest ++ b) := by
  refine h.stands_iff.mpr ⟨fun hk => (h.atBreak hk).append hne b, fun hraw => ?_⟩
  have hminus := h.not_isDecimal_minus hraw
  rcases takeWhile_append_cases rest b with hrun | ⟨hall, hrun⟩
  · rwa [hrun]
  · -- no breakpoint was found, so the search goes on into the new text
    rw [hall] at hminus
    rw [hrun]
    exact fun hdec => hminus (isDecimal_minus_of_append hdec hne (hpoint hraw))

theorem Stands.of_string (h : Stands l rest) (hk : l.content.kind = .string) (b : Text) : Stands l b := by
  cases h with
  | string hi => exact .string hi
  | _ => cases hk

theorem Stands.of_last {c : Char} (h : Stands l rest) (hl : l.raw.getLast? = some c)
    (hc : c = ' ' ∨ c = '\n' ∨ c = ';' ∨ c = '+' ∨ c = '=') (b : Text) : Stands l b := by
  have hbreak : IsBreak c := by
    rcases hc with rfl | rfl | rfl | rfl | rfl <;> simp [IsBreak]
  have hmem := List.mem_of_getLast? hl
  have hdigit : ¬(c = '-' ∨ c.isDigit ∨ c = '.') := by
    rcases hc with rfl | rfl | rfl | rfl | rfl <;> decide
  cases h with
  | string =>
    rw [List.getLast?_concat] at hl
    exact absurd (Option.some.inj hl ▸ hbreak) not_isBreak_quote
  | number hd =>
    obtain ⟨x, run, rfl, hx, hrun⟩ := hd.chars
    rcases List.mem_cons.mp hmem with rfl | hmem
    · exact absurd hx hdigit
    · exact absurd (.inr (hrun c hmem)) hdigit
  | symbol hs => exact .symbol hs
  | minus =>
    obtain rfl : '-' = c := by simpa using hl
    exact absurd (.inl rfl) hdigit
  | name hb _ hrun =>
    rcases List.mem_cons.mp hmem with rfl | hmem
    · exact absurd hbreak hb
    · exact absurd hbreak (hrun c hmem)

theorem ne_point_of_stands (h : ∀ b, Stands l b) : l.raw ≠ ['.'] := by
  intro hraw
  have hcut := (h [quote]).cut_of_digit (c := '.') (by rw [hraw]; rfl) (.inr rfl)
  exact not_atBreak_quote hcut.stops

end

/-! ## Pieces before more text -/

section
variable {ps qs : List Piece} {p : Piece} {a t rest : Text}

theorem Piece.Opens.ne_point (h : p.Opens t rest) (hne : rest ≠ []) : t ≠ ['.'] := by
  intro e
  rw [h.eq, List.append_eq_singleton_iff] at e
  rcases e with ⟨htext, -⟩ | ⟨-, hrest⟩
  · exact h.text_ne_nil htext
  · exact hne hrest

theorem Reads.extend (h : Reads ps t rest) (hne : rest ≠ []) (hpoint : ¬['-', '.'] <:+ t ∨ rest ≠ ['.'])
    (b : Text) : Reads ps (t ++ b) (rest ++ b) := by
  induction h with
  | nil => exact .nil
  | @cons p ps t more rest hp hr ih =>
    have hmore : more = ps.flatMap Piece.text ++ rest := hr.eq
    have hsuffix : more <:+ t := ⟨p.text, hp.eq.symm⟩
    refine .cons ⟨by rw [hp.eq, List.append_assoc], hp.gap, ?_⟩
      (ih hne (hpoint.imp_left fun h hdot => h (hdot.trans hsuffix)))
    refine hp.stands.extend (by simp [hmore, hne]) (fun hraw hdot => ?_) b
    -- then the text ends with the minus sign and the point, and the point is all that is left
    rcases hpoint with hpoint | hpoint
    · refine hpoint ⟨p.gap, ?_⟩
      rw [hp.eq, Piece.text, hraw, hdot, List.append_assoc]
      rfl
    · rw [hdot] at hmore
      obtain ⟨-, hrest⟩ | ⟨-, hrest⟩ := List.append_eq_singleton_iff.mp hmore.symm
      · exact hpoint hrest
      · exact hne hrest

theorem Reads.tokens_isPrefix (h : Reads ps t rest) :
    Piece.tokens [] ps <+: (Stream.ofText t).drain.tokens := by
  obtain ⟨hrun, -, -⟩ := (Stream.at_ofText t).run_of_reads h
  exact ⟨_, (Stream.drain_of_run hrun).1.symm⟩

/-! ## The whole text -/

theorem Decomposes.reads_append_of_gap {last : Text} (h : Decomposes a ps last) (hne : last ≠ []) (b : Text) :
    Reads ps (a ++ b) (last ++ b) := by
  refine h.reads.extend hne (.inr fun hpoint => ?_) b
  have hgap := h.last '.' (by simp [hpoint])
  simp at hgap

theorem Reads.stands_last_of_sealed (h : Reads ps a t) (hp : p.Opens t [])
    (hs : Sealed a (Piece.tokens [] (ps ++ [p]))) (b : Text) : Stands p.lexeme b := by
  have ha : a = ps.flatMap Piece.text ++ p.gap ++ p.lexeme.raw := by
    rw [h.eq, hp.eq, List.append_nil, Piece.text, List.append_assoc]
  generalize hts : Piece.tokens [] (ps ++ [p]) = ts at hs
  cases hs with
  | empty =>
    have hnil := (List.append_eq_nil_iff.mp ha.symm).2
    exact absurd hnil hp.stands.raw_ne_nil
  | @character a' c _ hc =>
    have hlast := congrArg List.getLast? ha
    rw [List.getLast?_concat, List.getLast?_append_of_ne_nil _ hp.stands.raw_ne_nil] at hlast
    exact hp.stands.of_last hlast.symm hc b
  | @string _ ts t hk =>
    rw [Piece.tokens_append] at hts
    obtain ⟨-, hlast⟩ := List.append_inj' hts rfl
    rw [← List.singleton_inj.mp hlast] at hk
    exact hp.stands.of_string hk b

theorem Reads.extend_sealed (h : Reads ps a t) (hp : p.Opens t []) (hs : ∀ b, Stands p.lexeme b) (b : Text) :
    Reads (ps ++ [p]) (a ++ b) b := by
  have ht : t = p.text := by rw [hp.eq, List.append_nil]
  have hpoint : p.text ≠ ['.'] := by
    intro e
    rcases List.append_eq_singleton_iff.mp e with ⟨-, hraw⟩ | ⟨-, hraw⟩
    · exact ne_point_of_stands hs hraw
    · exact hp.stands.raw_ne_nil hraw
  subst ht
  exact (h.extend hp.text_ne_nil (.inr hpoint) b).append (.cons ⟨rfl, hp.gap, hs b⟩ .nil)

theorem Piece.dropLast_tokens_concat (before : Text) (ps : List Piece) (p : Piece) :
    (tokens before (ps ++ [p])).dropLast = tokens before ps := by
  rw [tokens_append]
  exact List.dropLast_concat

end

/-- **More text.** Whatever is put behind a text that has tokens, these are read first, but for the last
one at most, or the last two where the text ends with a minus sign and a point. All of them are read
first if the text is empty or ends with a gap, with a symbol other than the minus sign, or with a
string. -/
theorem append_keeps_tokens {a : Text} {ts : List Token} (ha : Token.listOf a = .ok ts) (b : Text) :
    let read := (Stream.ofText (a ++ b)).drain.tokens
    (¬['-', '.'] <:+ a → ts.dropLast <+: read) ∧
      (['-', '.'] <:+ a → ts.dropLast.dropLast <+: read) ∧
      (Sealed a ts → ts <+: read) := by
  intro read
  obtain ⟨ps, last, hd, rfl⟩ := exists_decomposes ha
  by_cases hlast : last = []
  · subst hlast
    rcases List.eq_nil_or_concat' ps with rfl | ⟨qs, p, rfl⟩
    · simp [Piece.tokens]
    · obtain ⟨middle, hqs, hp⟩ := hd.reads.of_concat
      have hne : middle ≠ [] := by simp [hp.eq, hp.text_ne_nil]
      rw [Piece.dropLast_tokens_concat]
      refine ⟨fun hdot => (hqs.extend hne (.inl hdot) b).tokens_isPrefix, fun _ => ?_, fun hs => ?_⟩
      · rcases List.eq_nil_or_concat' qs with rfl | ⟨rs, q, rfl⟩
        · simp [Piece.tokens]
        · obtain ⟨middle', hrs, hq⟩ := hqs.of_concat
          have hne' : middle' ≠ [] := by simp [hq.eq, hq.text_ne_nil]
          rw [Piece.dropLast_tokens_concat]
          exact (hrs.extend hne' (.inr (hq.ne_point hne)) b).tokens_isPrefix
      · exact (hqs.extend_sealed hp (hqs.stands_last_of_sealed hp hs) b).tokens_isPrefix
  · have hall := (hd.reads_append_of_gap hlast b).tokens_isPrefix
    have hinit := (List.dropLast_prefix (Piece.tokens [] ps)).trans hall
    exact ⟨fun _ => hinit, fun _ => (List.dropLast_prefix _).trans hinit, fun _ => hall⟩

/-- Digits behind a minus sign and a point, and a string that is not closed. -/
theorem append_keeps_tokens_fraction :
    let a := ['x', '-', '.']
    let ts : List Token := [⟨.name ['x'], ['x'], ⟨1, 1, 0⟩, ⟨1, 2, 1⟩⟩,
      ⟨.symbol '-', ['-'], ⟨1, 2, 1⟩, ⟨1, 3, 2⟩⟩, ⟨.name ['.'], ['.'], ⟨1, 3, 2⟩, ⟨1, 4, 3⟩⟩]
    let read := (Stream.ofText (a ++ ['5', ' ', '"'])).drain.tokens
    Token.listOf a = .ok ts ∧ ['-', '.'] <:+ a ∧ ts.dropLast.dropLast <+: read ∧ ¬ts.dropLast <+: read := by
  intro a ts read
  have ha : Token.listOf a = .ok ts := by decide +kernel
  have hdot : ['-', '.'] <:+ a := ⟨['x'], rfl⟩
  exact ⟨ha, hdot, (append_keeps_tokens ha _).2.1 hdot, by decide +kernel⟩

end MathTokens
