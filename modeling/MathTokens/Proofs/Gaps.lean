import MathTokens.Proofs.Adjacency

/-!
# Gaps carry no meaning

A text woven from lexemes and gaps is read back as these lexemes if any two of them that no gap
parts may meet. Lexemes found in any texts are therefore read back when gaps part them all, and the
gaps of a text that has tokens may be changed as long as none is closed that parts two of them.
-/

namespace MathTokens

/-- The text is `raws` in order, with the gaps `gaps` before, between and after them. -/
inductive Woven : List Text → List Text → Text → Prop
  | last {g} : IsGap g → Woven [g] [] g
  | cons {g gaps raw raws t} : IsGap g → Woven gaps raws t →
      Woven (g :: gaps) (raw :: raws) (g ++ raw ++ t)

/-- What is left of a token when its place is forgotten. -/
def Token.lexeme (t : Token) : Lexeme :=
  ⟨t.content, t.raw⟩

theorem Token.map_raw (ts : List Token) : ts.map Token.raw = (ts.map Token.lexeme).map Lexeme.raw := by
  rw [List.map_map]
  rfl

theorem Piece.map_lexeme_tokens (before : Text) (ps : List Piece) :
    (tokens before ps).map Token.lexeme = ps.map Piece.lexeme := by
  induction ps generalizing before with
  | nil => rfl
  | cons p ps ih =>
    rw [tokens, List.map_cons, ih, List.map_cons]
    rfl

/-! ## Weaving pieces -/

section
variable {ls : List Lexeme} {gaps gaps' : List Text} {ps : List Piece} {t last : Text}

theorem Woven.uncons {raw t : Text} {raws : List Text} (h : Woven gaps (raw :: raws) t) :
    ∃ g gaps' u, gaps = g :: gaps' ∧ t = g ++ raw ++ u ∧ IsGap g ∧ Woven gaps' raws u := by
  cases h with
  | cons hg h => exact ⟨_, _, _, rfl, rfl, hg, h⟩

theorem Woven.exists_pieces (h : Woven gaps (ls.map Lexeme.raw) t) :
    ∃ (ps : List Piece) (last : Text), ps.map Piece.lexeme = ls ∧ gaps = ps.map Piece.gap ++ [last] ∧
      t = ps.flatMap Piece.text ++ last ∧ (∀ p ∈ ps, IsGap p.gap) ∧ IsGap last := by
  induction ls generalizing gaps t with
  | nil =>
    cases h with
    | last hg => exact ⟨[], t, rfl, rfl, rfl, by simp, hg⟩
  | cons l ls ih =>
    obtain ⟨g, gaps, u, rfl, rfl, hg, h⟩ := h.uncons
    obtain ⟨ps, last, rfl, rfl, rfl, hgs, hl⟩ := ih h
    refine ⟨⟨g, l⟩ :: ps, last, rfl, rfl, ?_, List.forall_mem_cons.mpr ⟨hg, hgs⟩, hl⟩
    rw [List.flatMap_cons, ← List.append_assoc]
    rfl

theorem Decomposes.woven (h : Decomposes t ps last) :
    Woven (ps.map Piece.gap ++ [last]) ((ps.map Piece.lexeme).map Lexeme.raw) t := by
  obtain ⟨hr, hl⟩ := h
  induction hr with
  | nil => exact .last hl
  | cons hp _ ih =>
    rw [hp.eq, Piece.text]
    exact .cons hp.gap (ih hl)

theorem Woven.unique (h : Woven gaps (ls.map Lexeme.raw) t) (h' : Woven gaps' (ls.map Lexeme.raw) t)
    (hls : ∀ l ∈ ls, l.Occurs) : gaps = gaps' := by
  induction ls generalizing gaps gaps' t with
  | nil =>
    cases h
    cases h'
    rfl
  | cons l ls ih =>
    obtain ⟨⟨rest, hl⟩, hls⟩ := List.forall_mem_cons.mp hls
    obtain ⟨c, raw, hraw⟩ := List.exists_cons_of_ne_nil hl.raw_ne_nil
    -- a lexeme starts with no gap, so the gap before it ends where the lexeme starts
    have hfront : l.raw ++ rest = c :: (raw ++ rest) := by rw [hraw, List.cons_append]
    have hc : isGap c = false := (hl.read? hfront).1
    have start : ∀ u d, (l.raw ++ u).head? = some d → isGap d = false := by
      intro u d hd
      rw [hraw] at hd
      obtain rfl : c = d := by simpa using hd
      exact hc
    obtain ⟨g, gaps, u, rfl, rfl, hg, h⟩ := h.uncons
    obtain ⟨g', gaps', u', rfl, ht, hg', h'⟩ := h'.uncons
    rw [List.append_assoc, List.append_assoc] at ht
    obtain rfl : g = g' := by
      rw [← (takeWhile_isGap hg (start u)).1, ht, (takeWhile_isGap hg' (start u')).1]
    obtain rfl : u = u' := List.append_cancel_left (List.append_cancel_left ht)
    rw [ih h h' hls]

theorem Woven.listOf_eq (h : Woven gaps (ls.map Lexeme.raw) t) (hls : ∀ l ∈ ls, l.Occurs)
    (hm : ∀ (i : Nat) (hi : i + 1 < ls.length), gaps[i + 1]? = some [] → ls[i].Meets ls[i + 1]) :
    ∃ us, Token.listOf t = .ok us ∧ us.map Token.lexeme = ls := by
  obtain ⟨ps, last, rfl, rfl, rfl, hgs, hl⟩ := h.exists_pieces
  have hfits : Piece.Fits ps := by
    refine ⟨hgs, fun p hp => hls _ (List.mem_map_of_mem hp), ?_⟩
    rw [List.isChain_iff_getElem]
    intro i hi hg
    have := hm i (by simpa using hi) (by simp [List.getElem?_append_left, hi, hg])
    simpa using this
  exact ⟨_, (decomposes_iff_fits.mpr ⟨rfl, hl, hfits⟩).listOf_eq, Piece.map_lexeme_tokens _ _⟩

end

/-! ## Tokens of any texts -/

theorem Advance.occurs {source before after : Text} {t : Token}
    (h : Advance source before (.token t) after) : t.lexeme.Occurs := by
  cases h with
  | token _ hp => exact ⟨_, hp.stands⟩

theorem Course.occurs {source before : Text} {as : List Step} (h : Course source as before) :
    ∀ t, .token t ∈ as → t.lexeme.Occurs := by
  induction h with
  | start => simp
  | step _ ha ih =>
    intro t ht
    rcases List.mem_append.mp ht with ht | ht
    · exact ih t ht
    · rw [← List.mem_singleton.mp ht] at ha
      exact ha.occurs

/-- **Reading back.** Tokens that were read from any texts, in runs that may fail later, are read back
from their raw texts with gaps around them, if no gap between two of them is empty. -/
theorem listOf_woven {ts : List Token} {gaps : List Text} {t : Text}
    (hts : ∀ u ∈ ts, ∃ source n, .token u ∈ ((Stream.ofText source).run n).1)
    (ht : Woven gaps (ts.map Token.raw) t)
    (hgaps : ∀ i, 0 < i → i < ts.length → gaps[i]? ≠ some []) :
    ∃ us, Token.listOf t = .ok us ∧ us.map Token.lexeme = ts.map Token.lexeme := by
  rw [Token.map_raw] at ht
  refine ht.listOf_eq ?_ ?_
  · intro l hl
    obtain ⟨u, hu, rfl⟩ := List.mem_map.mp hl
    obtain ⟨source, n, hn⟩ := hts u hu
    obtain ⟨_, hc, -⟩ := Stream.course_run source n
    exact hc.occurs u hn
  · intro i hi hg
    rw [List.length_map] at hi
    exact absurd hg (hgaps (i + 1) (Nat.succ_pos i) hi)

/-- A minus sign from a text where no digits follow, digits from another, and a string from a text that
fails later. -/
theorem listOf_woven_minus_digits :
    let ts : List Token := [⟨.symbol '-', ['-'], ⟨1, 1, 0⟩, ⟨1, 2, 1⟩⟩,
      ⟨.number (Decimal.toBinary64 ⟨false, 5, 0⟩), ['5'], ⟨1, 1, 0⟩, ⟨1, 2, 1⟩⟩,
      ⟨.string ['a'], ['"', '\n', 'a', '"'], ⟨1, 2, 1⟩, ⟨2, 3, 5⟩⟩]
    let t := [' ', '-', '\n', '5', ' ', '"', '\n', 'a', '"']
    (∀ u ∈ ts, ∃ source n, .token u ∈ ((Stream.ofText source).run n).1) ∧
      Woven [[' '], ['\n'], [' '], []] (ts.map Token.raw) t ∧
      ∃ us, Token.listOf t = .ok us ∧ us.map Token.lexeme = ts.map Token.lexeme := by
  intro ts t
  have hts : ∀ u ∈ ts, ∃ source n, .token u ∈ ((Stream.ofText source).run n).1 := by
    intro u hu
    simp only [ts, List.mem_cons, List.not_mem_nil, or_false] at hu
    rcases hu with rfl | rfl | rfl
    · exact ⟨['-', 'x'], 1, by decide +kernel⟩
    · exact ⟨['5'], 1, by decide +kernel⟩
    · exact ⟨[' ', '"', '\n', 'a', '"', '"'], 1, by decide +kernel⟩
  have hgap : IsGap [' '] ∧ IsGap ['\n'] ∧ IsGap [] := by simp [IsGap]
  have ht : Woven [[' '], ['\n'], [' '], []] (ts.map Token.raw) t :=
    .cons hgap.1 (.cons hgap.2.1 (.cons hgap.1 (.last hgap.2.2)))
  have hparted : ∀ i < 3, 0 < i → [[' '], ['\n'], [' '], []][i]? ≠ some [] := by decide
  exact ⟨hts, ht, listOf_woven hts ht fun i h0 hi => hparted i hi h0⟩

/-- **Gaps.** A text that has tokens is woven from their raw texts in one way, and any text woven from
them has the same tokens up to their places, if it closes no gap between two of them. -/
theorem listOf_rewoven {t : Text} {ts : List Token} (ht : Token.listOf t = .ok ts) :
    (∃! gaps, Woven gaps (ts.map Token.raw) t) ∧
      ∀ gaps gaps' t', Woven gaps (ts.map Token.raw) t → Woven gaps' (ts.map Token.raw) t' →
        (∀ i, 0 < i → i < ts.length → gaps[i]? ≠ some [] → gaps'[i]? ≠ some []) →
        ∃ us, Token.listOf t' = .ok us ∧ us.map Token.lexeme = ts.map Token.lexeme := by
  obtain ⟨ps, last, hd, rfl⟩ := exists_decomposes ht
  have hfits := hd.reads.fits
  have hls : ∀ l ∈ ps.map Piece.lexeme, l.Occurs := List.forall_mem_map.mpr hfits.occurs
  rw [Token.map_raw, Piece.map_lexeme_tokens, Piece.length_tokens]
  refine ⟨⟨_, hd.woven, fun gaps h => h.unique hd.woven hls⟩, ?_⟩
  intro gaps gaps' t' h h' hclose
  obtain rfl := h.unique hd.woven hls
  refine h'.listOf_eq hls ?_
  intro i hi hg
  rw [List.length_map] at hi
  have hgap : ps[i + 1].gap = [] := by
    refine Classical.byContradiction fun hne => hclose (i + 1) (Nat.succ_pos i) hi ?_ hg
    simpa [List.getElem?_append_left, hi] using hne
  have := List.isChain_iff_getElem.mp hfits.meets i hi hgap
  simpa using this

/-- A gap put in behind a minus sign, none before a negative number, and the two on the ends taken away. -/
theorem listOf_rewoven_minus_string :
    let t := ['\n', 'x', ' ', '-', '"', 'a', '"', '-', '5', '\n', 'y', ' ']
    let t' := ['x', '\n', '-', ' ', '"', 'a', '"', '-', '5', ' ', ' ', 'y']
    let gaps := [['\n'], [' '], [], [], ['\n'], [' ']]
    let gaps' := [[], ['\n'], [' '], [], [' ', ' '], []]
    let ts := Piece.tokens [] [⟨['\n'], .name ['x'], ['x']⟩, ⟨[' '], .symbol '-', ['-']⟩,
      ⟨[], .string ['a'], ['"', 'a', '"']⟩, ⟨[], .number (Decimal.toBinary64 ⟨true, 5, 0⟩), ['-', '5']⟩,
      ⟨['\n'], .name ['y'], ['y']⟩]
    Token.listOf t = .ok ts ∧ Woven gaps (ts.map Token.raw) t ∧ Woven gaps' (ts.map Token.raw) t' ∧
      ∃ us, Token.listOf t' = .ok us ∧ us.map Token.lexeme = ts.map Token.lexeme := by
  intro t t' gaps gaps' ts
  have ht : Token.listOf t = .ok ts := by decide +kernel
  have hg : IsGap [] ∧ IsGap [' '] ∧ IsGap ['\n'] ∧ IsGap [' ', ' '] := by simp [IsGap]
  have h : Woven gaps (ts.map Token.raw) t :=
    .cons hg.2.2.1 (.cons hg.2.1 (.cons hg.1 (.cons hg.1 (.cons hg.2.2.1 (.last hg.2.1)))))
  have h' : Woven gaps' (ts.map Token.raw) t' :=
    .cons hg.1 (.cons hg.2.2.1 (.cons hg.2.1 (.cons hg.1 (.cons hg.2.2.2 (.last hg.1)))))
  have hparted : ∀ i < 5, 0 < i → gaps[i]? ≠ some [] → gaps'[i]? ≠ some [] := by decide
  exact ⟨ht, h, h', (listOf_rewoven ht).2 gaps gaps' t' h h' fun i h0 hi => hparted i hi h0⟩

end MathTokens
