import MathTokens.Proofs.Courses

/-!
# Decomposition

A text has tokens exactly if it is a sequence of pieces and a gap, each piece where it may stand. It
is so in one way at most, and then its tokens are those of the pieces. Otherwise some pieces are
read, and after them a string is not closed.
-/

namespace MathTokens

/-- The text `t` is the pieces `ps` and the gap `last` after them. -/
structure Decomposes (t : Text) (ps : List Piece) (last : Text) : Prop where
  reads : Reads ps t last
  last : IsGap last

/-- After the pieces `ps` and the gap `gap` a string is opened in `t`, and `tail` does not close it. -/
structure BreaksOff (t : Text) (ps : List Piece) (gap tail : Text) : Prop where
  reads : Reads ps t (gap ++ quote :: tail)
  gap : IsGap gap
  tail : quote ∉ tail

namespace Stream

variable {source before : Text} {s : Stream}

theorem At.run_of_reads {ps : List Piece} {rest : Text} (h : s.At source before)
    (hr : Reads ps s.rest rest) :
    (s.run ps.length).1 = (Piece.tokens before ps).map .token ∧
      (s.run ps.length).2.At source (before ++ ps.flatMap Piece.text) ∧
      (s.run ps.length).2.rest = rest := by
  induction ps generalizing s before with
  | nil =>
    cases hr
    exact ⟨rfl, by simpa [run] using h, rfl⟩
  | cons p ps ih =>
    cases hr with
    | cons hp hr =>
      obtain ⟨ha, hs, hrest⟩ := h.next_token hp
      obtain ⟨h1, h2, h3⟩ := ih hs (hrest ▸ hr)
      rw [List.length_cons, run_succ', ha]
      refine ⟨?_, ?_, h3⟩
      · rw [h1, Piece.tokens, List.map_cons]
      · rw [List.flatMap_cons, ← List.append_assoc]
        exact h2

theorem drain_of_run {n : Nat} {ts : List Token} (h : (s.run n).1 = ts.map .token) :
    s.drain.tokens = ts ++ (s.run n).2.drain.tokens ∧ s.drain.error? = (s.run n).2.drain.error? := by
  induction n generalizing s ts with
  | zero =>
    cases ts with
    | nil => exact ⟨rfl, rfl⟩
    | cons => cases h
  | succ n ih =>
    rw [run_succ'] at h ⊢
    cases ts with
    | nil => cases h
    | cons t ts =>
      rw [List.map_cons, List.cons.injEq] at h
      have hn : s.next = (.token t, s.next.2) := Prod.ext h.1 rfl
      obtain ⟨h1, h2⟩ := ih h.2
      rw [drain_eq, hn]
      exact ⟨congrArg (t :: ·) h1, h2⟩

theorem At.drain_finished (h : s.At source before) (hg : IsGap s.rest) :
    s.drain.tokens = [] ∧ s.drain.error? = none := by
  have hn : s.next = (.finished, s.next.2) := Prod.ext (h.next_finished hg).1 rfl
  rw [drain_eq, hn]
  exact ⟨rfl, rfl⟩

theorem At.drain_failed (h : s.At source before) {gap tail : Text} (hu : Unclosed s.rest gap tail) :
    s.drain.tokens = [] ∧ s.drain.error? = some (.unclosed source (before ++ gap)) := by
  have hn : s.next = (.failed _, s.next.2) := Prod.ext (h.next_failed hu).1 rfl
  rw [drain_eq, hn]
  exact ⟨rfl, rfl⟩

end Stream

section
variable {source last gap tail : Text} {ps : List Piece}

theorem Decomposes.listOf_eq (h : Decomposes source ps last) :
    Token.listOf source = .ok (Piece.tokens [] ps) := by
  obtain ⟨h1, h2, h3⟩ := (Stream.at_ofText source).run_of_reads h.reads
  obtain ⟨ht, he⟩ := Stream.drain_of_run h1
  obtain ⟨ht', he'⟩ := h2.drain_finished (h3 ▸ h.last)
  simp only [Token.listOf, ht, he, ht', he', List.append_nil]

theorem BreaksOff.unclosed (h : BreaksOff source ps gap tail) :
    Unclosed (gap ++ quote :: tail) gap tail :=
  ⟨rfl, h.gap, h.tail⟩

theorem BreaksOff.drain_eq (h : BreaksOff source ps gap tail) :
    (Stream.ofText source).drain.tokens = Piece.tokens [] ps ∧
      (Stream.ofText source).drain.error? = some (.unclosed source (ps.flatMap Piece.text ++ gap)) := by
  obtain ⟨h1, h2, h3⟩ := (Stream.at_ofText source).run_of_reads h.reads
  obtain ⟨ht, he⟩ := Stream.drain_of_run h1
  obtain ⟨ht', he'⟩ := h2.drain_failed (h3 ▸ h.unclosed)
  rw [ht, he, ht', he', List.append_nil]
  exact ⟨rfl, rfl⟩

theorem BreaksOff.listOf_eq (h : BreaksOff source ps gap tail) :
    Token.listOf source = .error (.unclosed source (ps.flatMap Piece.text ++ gap)) := by
  simp only [Token.listOf, h.drain_eq.2]

theorem decomposes_or_breaksOff (t : Text) :
    (∃ ps last, Decomposes t ps last) ∨ ∃ ps gap tail, BreaksOff t ps gap tail := by
  obtain ⟨ps, rest, hr, hg | ⟨gap, tail, hu⟩⟩ := exists_reads t
  · exact .inl ⟨ps, rest, hr, hg⟩
  · exact .inr ⟨ps, gap, tail, hu.eq ▸ hr, hu.gap, hu.tail⟩

theorem Decomposes.unique {ps' : List Piece} {last' : Text} (h : Decomposes source ps last)
    (h' : Decomposes source ps' last') : ps = ps' ∧ last = last' :=
  h.reads.unique h'.reads (fun _ _ => not_opens_of_isGap h.last) (fun _ _ => not_opens_of_isGap h'.last)

theorem exists_decomposes {ts : List Token} (h : Token.listOf source = .ok ts) :
    ∃ ps last, Decomposes source ps last ∧ ts = Piece.tokens [] ps := by
  rcases decomposes_or_breaksOff source with ⟨ps, last, hd⟩ | ⟨ps, gap, tail, hb⟩
  · exact ⟨ps, last, hd, Except.ok.inj (h.symm.trans hd.listOf_eq)⟩
  · rw [hb.listOf_eq] at h
    cases h

theorem listOf_isOk_iff (source : Text) :
    (∃ ts, Token.listOf source = .ok ts) ↔ ∃ ps last, Decomposes source ps last := by
  constructor
  · rintro ⟨ts, hts⟩
    rcases decomposes_or_breaksOff source with h | ⟨ps, gap, tail, h⟩
    · exact h
    · rw [h.listOf_eq] at hts
      cases hts
  · rintro ⟨ps, last, h⟩
    exact ⟨_, h.listOf_eq⟩

theorem listOf_isError_iff (source : Text) :
    (∃ e, Token.listOf source = .error e) ↔ ∃ ps gap tail, BreaksOff source ps gap tail := by
  constructor
  · rintro ⟨e, he⟩
    rcases decomposes_or_breaksOff source with ⟨ps, last, h⟩ | h
    · rw [h.listOf_eq] at he
      cases he
    · exact h
  · rintro ⟨ps, gap, tail, h⟩
    exact ⟨_, h.listOf_eq⟩

end

/-- **Decomposition.** Tokens are read exactly from the texts that the grammar allows, and they are the
tokens of the one way in which it does. -/
theorem tokens_iff_decomposes (source : Text) :
    ((∃ ts, Token.listOf source = .ok ts) ↔ ∃ ps last, Decomposes source ps last) ∧
      (∀ ps last ps' last', Decomposes source ps last → Decomposes source ps' last' →
        ps = ps' ∧ last = last') ∧
      ∀ ps last, Decomposes source ps last → Token.listOf source = .ok (Piece.tokens [] ps) :=
  ⟨listOf_isOk_iff source, fun _ _ _ _ h h' => h.unique h', fun _ _ h => h.listOf_eq⟩

/-- A name, a minus sign before a string, and a negative number right after it. -/
theorem tokens_iff_decomposes_adjacent :
    let source := ['x', ' ', '-', '"', 'a', '"', '-', '2', '\n']
    let ps : List Piece := [⟨[], .name ['x'], ['x']⟩, ⟨[' '], .symbol '-', ['-']⟩,
      ⟨[], .string ['a'], ['"', 'a', '"']⟩, ⟨[], .number (Decimal.toBinary64 ⟨true, 2, 0⟩), ['-', '2']⟩]
    Decomposes source ps ['\n'] ∧ Token.listOf source = .ok (Piece.tokens [] ps) := by
  intro source ps
  have number : Reads (ps.drop 3) ['-', '2', '\n'] ['\n'] :=
    .cons ⟨rfl, by simp [IsGap], .number (Decimal.read?_eq_some_iff.mp (by decide))
      (by simp [AtBreak, IsBreak])⟩ .nil
  have string : Reads (ps.drop 2) ['"', 'a', '"', '-', '2', '\n'] ['\n'] :=
    .cons ⟨rfl, by simp [IsGap], @Stands.string ['a'] _ (by decide)⟩ number
  have minus : Reads (ps.drop 1) [' ', '-', '"', 'a', '"', '-', '2', '\n'] ['\n'] :=
    .cons ⟨rfl, by simp [IsGap], .minus (cut_takeWhile _) (Decimal.read?_eq_none_iff.mp (by decide))⟩ string
  have name : Reads ps source ['\n'] :=
    .cons ⟨rfl, by simp [IsGap], .name (by simp [IsBreak]) (by decide) (by simp)
      (Decimal.read?_eq_none_iff.mp (by decide)) (by simp [AtBreak, IsBreak])⟩ minus
  have hd : Decomposes source ps ['\n'] := ⟨name, by simp [IsGap]⟩
  exact ⟨hd, (tokens_iff_decomposes source).2.2 ps _ hd⟩

end MathTokens
