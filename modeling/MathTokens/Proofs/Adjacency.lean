import Mathlib.Data.List.Chain
import MathTokens.Proofs.Decomposition

/-!
# Lexemes next to each other

Before a breakpoint or the end of a text any lexeme may stand. Where there is no gap between two
lexemes, whether the first may stand there is told by the two alone: a minus sign is a symbol unless
the digits of a number follow it, and what comes after the second lexeme is never looked at. So a
text decomposes into pieces exactly if each two neighbours without a gap may meet.
-/

namespace MathTokens

namespace Lexeme

/-- There is a text with the lexeme at its front. -/
def Occurs (l : Lexeme) : Prop :=
  ∃ rest, Stands l rest

/-- There is a text with `l` at its front and `l'` right behind it. -/
def Meets (l l' : Lexeme) : Prop :=
  ∃ rest, Stands l (l'.raw ++ rest) ∧ Stands l' rest

end Lexeme

structure Piece.Fits (ps : List Piece) : Prop where
  gap : ∀ p ∈ ps, IsGap p.gap
  occurs : ∀ p ∈ ps, p.lexeme.Occurs
  meets : ps.IsChain fun p q => q.gap = [] → p.lexeme.Meets q.lexeme

/-! ## What a lexeme needs of the text behind it -/

section
variable {l l' : Lexeme} {t rest rest' : Text}

theorem IsGap.atBreak (h : IsGap t) : AtBreak t := by
  intro c hc
  rcases h c (List.mem_of_head? hc) with rfl | rfl <;> simp [IsBreak]

theorem Stands.of_atBreak (h : Stands l rest) (hr : AtBreak rest') : Stands l rest' := by
  have hcut : Cut rest' [] rest' := ⟨rfl, by simp, hr⟩
  refine h.stands_iff.mpr ⟨fun _ => hr, fun _ => ?_⟩
  rw [hcut.takeWhile_eq]
  rintro ⟨d, hd⟩
  exact hd.chars_minus.1 rfl

theorem Stands.cut_of_digit {c : Char} (h : Stands l rest) (hc : l.raw.head? = some c)
    (hd : c.isDigit ∨ c = '.') : Cut (l.raw ++ rest) l.raw rest := by
  cases h with
  | string =>
    obtain rfl : quote = c := by simpa using hc
    exact absurd hd (by decide)
  | number hs hr =>
    obtain ⟨x, run, rfl, -, hrun⟩ := hs.chars
    obtain rfl : x = c := by simpa using hc
    refine ⟨rfl, fun y hy => ?_, hr⟩
    rcases List.mem_cons.mp hy with rfl | hy
    · exact not_isBreak_of_isDigit hd
    · exact not_isBreak_of_isDigit (hrun y hy)
  | @symbol x _ hx =>
    obtain rfl : x = c := by simpa using hc
    rcases hx with rfl | rfl | rfl <;> exact absurd hd (by decide)
  | minus =>
    obtain rfl : '-' = c := by simpa using hc
    exact absurd hd (by decide)
  | @name x run _ hb _ hrun _ hr =>
    refine ⟨rfl, fun y hy => ?_, hr⟩
    rcases List.mem_cons.mp hy with rfl | hy
    · exact hb
    · exact hrun y hy

theorem Stands.minus_iff (h : Stands l rest) :
    Stands ⟨.symbol '-', ['-']⟩ (l.raw ++ rest) ↔ ¬IsDecimal ('-' :: l.raw) := by
  obtain ⟨c, raw, hraw⟩ := List.exists_cons_of_ne_nil h.raw_ne_nil
  have hc : l.raw.head? = some c := by rw [hraw]; rfl
  constructor
  · intro hm hdec
    obtain ⟨d, hd⟩ := hdec
    have hcut := h.cut_of_digit hc (hd.chars_minus.2 c (by simp [hraw]))
    cases hm with
    | symbol hs => revert hs; decide
    | minus hcut' hd' => exact hd' (hcut.run_unique hcut' ▸ ⟨d, hd⟩)
  · intro hnot
    have hcut := cut_takeWhile (l.raw ++ rest)
    refine .minus hcut ?_
    rintro ⟨d, hd⟩
    obtain ⟨hne, hall⟩ := hd.chars_minus
    -- the run is not empty, so it starts as the lexeme does
    obtain ⟨x, run, hrun⟩ := List.exists_cons_of_ne_nil hne
    have hx : x = c := by
      have := hcut.eq
      rw [hrun, hraw] at this
      exact (List.cons.inj this).1.symm
    have hcut' := h.cut_of_digit hc (hx ▸ hall x (by simp [hrun]))
    rw [hcut.run_unique hcut'] at hd
    exact hnot ⟨d, hd⟩

theorem Stands.of_meets (hm : l.Meets l') (h : Stands l' rest) : Stands l (l'.raw ++ rest) := by
  obtain ⟨rest', hl, hl'⟩ := hm
  cases hl with
  | string hi => exact .string hi
  | number hd hr => exact .number hd (hr.of_append.append h.raw_ne_nil _)
  | symbol hc => exact .symbol hc
  | minus hcut hd => exact h.minus_iff.mpr (hl'.minus_iff.mp (.minus hcut hd))
  | name hb hq hrun hd hr => exact .name hb hq hrun hd (hr.of_append.append h.raw_ne_nil _)

end

/-! ## Pieces next to each other -/

section
variable {ps : List Piece} {t last : Text}

theorem Reads.fits (h : Reads ps t last) : Piece.Fits ps := by
  induction h with
  | nil => exact ⟨by simp, by simp, .nil⟩
  | @cons p ps t more last hp hr ih =>
    refine ⟨?_, ?_, ?_⟩
    · exact List.forall_mem_cons.mpr ⟨hp.gap, ih.gap⟩
    · exact List.forall_mem_cons.mpr ⟨⟨_, hp.stands⟩, ih.occurs⟩
    · cases hr with
      | nil => exact .singleton p
      | @cons q _ _ rest _ hq =>
        refine .cons_cons (fun hg => ⟨rest, ?_, hq.stands⟩) ih.meets
        have := hp.stands
        rwa [hq.eq, Piece.text, hg, List.nil_append] at this

theorem Piece.Fits.reads (h : Fits ps) (hl : IsGap last) : Reads ps (ps.flatMap text ++ last) last := by
  induction ps with
  | nil => exact .nil
  | cons p ps ih =>
    obtain ⟨hg, hgs⟩ := List.forall_mem_cons.mp h.gap
    obtain ⟨⟨_, ho⟩, hos⟩ := List.forall_mem_cons.mp h.occurs
    -- the pieces behind `p` are read first: they tell what `p` stands before
    have hr := ih ⟨hgs, hos, h.meets.tail⟩
    refine .cons ⟨by rw [List.flatMap_cons, List.append_assoc], hg, ?_⟩ hr
    cases ps with
    | nil => exact ho.of_atBreak hl.atBreak
    | cons q ps =>
      have hq : IsGap q.gap := hgs q (by simp)
      rw [List.flatMap_cons, List.append_assoc, Piece.text, List.append_assoc]
      by_cases hqg : q.gap = []
      · cases hr with
        | @cons _ _ _ more _ hopen =>
          have hmore : more = ps.flatMap Piece.text ++ last := by
            have := hopen.eq
            rw [List.flatMap_cons, List.append_assoc] at this
            exact (List.append_cancel_left this).symm
          rw [hqg, List.nil_append, ← hmore]
          exact hopen.stands.of_meets ((List.isChain_cons_cons.mp h.meets).1 hqg)
      · exact ho.of_atBreak (hq.atBreak.append hqg _)

theorem decomposes_iff_fits :
    Decomposes t ps last ↔ t = ps.flatMap Piece.text ++ last ∧ IsGap last ∧ Piece.Fits ps := by
  constructor
  · intro h
    exact ⟨h.reads.eq, h.last, h.reads.fits⟩
  · rintro ⟨rfl, hl, h⟩
    exact ⟨h.reads hl, hl⟩

end

end MathTokens
