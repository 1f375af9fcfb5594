import MathTokens.Proofs.Codes
import MathTokens.Proofs.OpenStrings

/-!
# States between quotes

Whether a quote opens a string can be told by passing over the text before it once: it does unless it
stands in a word or in a string. A string is still open at the end exactly if reading fails, and the
quote at fault is the one that opened it.
-/

namespace MathTokens

/-- Where a point of a text lies, as far as a quote behind it is concerned. -/
inductive Within where
  | nothing
  | word
  | string
deriving DecidableEq

namespace Within

def step : Within → Char → Within
  | nothing, c => if c = quote then string else if isBreakpoint c then nothing else word
  | word, c => if isBreakpoint c then nothing else word
  | string, c => if c = quote then nothing else string

def after (t : Text) : Within :=
  t.foldl step nothing

/-- A word is left behind: what follows is read as if nothing stood before it. -/
def IsLeft (w : Within) (rest : Text) : Prop :=
  w = nothing ∨ w = word ∧ AtBreak rest

variable {w : Within} {t rest : Text}

theorem step_of_isBreak {c : Char} (hw : w ≠ string) (hc : IsBreak c) : step w c = nothing := by
  have hq : c ≠ quote := fun e => not_isBreak_quote (e ▸ hc)
  have hb := isBreakpoint_eq_true_iff.mpr hc
  cases w with
  | nothing => simp [step, hq, hb]
  | word => simp [step, hb]
  | string => exact absurd rfl hw

theorem foldl_of_isGap (hw : w ≠ string) (ht : IsGap t) :
    t.foldl step w = if t = [] then w else nothing := by
  induction t generalizing w with
  | nil => rfl
  | cons c t ih =>
    obtain ⟨hc, ht⟩ := List.forall_mem_cons.mp ht
    have hbreak : IsBreak c := by
      rcases hc with rfl | rfl <;> simp [IsBreak]
    rw [List.foldl_cons, step_of_isBreak hw hbreak, ih (by simp) ht]
    simp

theorem foldl_of_not_mem_quote (ht : quote ∉ t) : t.foldl step string = string := by
  induction t with
  | nil => rfl
  | cons c t ih =>
    simp only [List.mem_cons, not_or] at ht
    rw [List.foldl_cons, step, if_neg (Ne.symm ht.1), ih ht.2]

theorem foldl_word (ht : ∀ c ∈ t, ¬IsBreak c) : t.foldl step word = word := by
  induction t with
  | nil => rfl
  | cons c t ih =>
    obtain ⟨hc, ht⟩ := List.forall_mem_cons.mp ht
    rw [List.foldl_cons, step, if_neg (by simp [isBreakpoint_eq_false_iff.mpr hc]), ih ht]

theorem IsLeft.step_eq (h : w.IsLeft rest) {c : Char} (hc : rest.head? = some c) :
    step w c = step nothing c := by
  rcases h with rfl | ⟨rfl, hbreak⟩
  · rfl
  · rw [step_of_isBreak (by simp) (hbreak c hc), step_of_isBreak (by simp) (hbreak c hc)]

theorem IsLeft.foldl_eq {u : Text} (h : w.IsLeft (u ++ rest)) (hu : u ≠ []) :
    u.foldl step w = u.foldl step nothing := by
  obtain ⟨c, u, rfl⟩ := List.exists_cons_of_ne_nil hu
  rw [List.foldl_cons, List.foldl_cons, h.step_eq rfl]

theorem IsLeft.ne_string (h : w.IsLeft rest) : w ≠ string := by
  rcases h with rfl | ⟨rfl, -⟩ <;> simp

theorem foldl_digits (ht : ∀ c ∈ t, c.isDigit ∨ c = '.') :
    t.foldl step nothing = nothing ∨ t.foldl step nothing = word := by
  cases t with
  | nil => exact .inl rfl
  | cons c t =>
    have hbreak : ∀ d ∈ c :: t, ¬IsBreak d := fun d hd => not_isBreak_of_isDigit (ht d hd)
    obtain ⟨hc, ht'⟩ := List.forall_mem_cons.mp hbreak
    have hq : c ≠ quote := by
      rintro rfl
      exact absurd (ht quote (by simp)) (by decide)
    rw [List.foldl_cons, step, if_neg hq, if_neg (by simp [isBreakpoint_eq_false_iff.mpr hc]),
      foldl_word ht']
    exact .inr rfl

/-! ## Reading -/

theorem isLeft_of_stands {l : Lexeme} (h : Stands l rest) : (after l.raw).IsLeft rest := by
  unfold after
  cases h with
  | string hinner =>
    rw [List.cons_append, List.foldl_cons, List.foldl_append,
      show step nothing quote = string from rfl, foldl_of_not_mem_quote hinner]
    exact .inl rfl
  | number hd hbreak =>
    obtain ⟨c, run, rfl, hc, hrun⟩ := hd.chars
    have hleft : run.foldl step (step nothing c) = nothing ∨ run.foldl step (step nothing c) = word := by
      rcases hc with rfl | hc
      · exact foldl_digits hrun
      · exact foldl_digits (t := c :: run) (List.forall_mem_cons.mpr ⟨hc, hrun⟩)
    exact hleft.imp_right fun hw => ⟨hw, hbreak⟩
  | symbol hc => rcases hc with rfl | rfl | rfl <;> exact .inl rfl
  | minus => exact .inl rfl
  | name hc hq hrun _ hbreak =>
    rw [List.foldl_cons, step, if_neg hq, if_neg (by simp [isBreakpoint_eq_false_iff.mpr hc]),
      foldl_word hrun]
    exact .inr ⟨rfl, hbreak⟩

theorem isLeft_of_opens {p : Piece} (h : p.Opens t rest) (hw : w.IsLeft t) :
    (p.text.foldl step w).IsLeft rest := by
  rw [h.eq] at hw
  have hgap : p.gap.foldl step nothing = nothing := by
    rw [foldl_of_isGap (by simp) h.gap]
    split <;> rfl
  rw [hw.foldl_eq h.text_ne_nil, Piece.text, List.foldl_append, hgap]
  exact isLeft_of_stands h.stands

theorem isLeft_of_reads {ps : List Piece} (h : Reads ps t rest) (hw : w.IsLeft t) :
    ((ps.flatMap Piece.text).foldl step w).IsLeft rest := by
  -- what one piece leaves behind is where the next one begins
  induction h generalizing w with
  | nil => exact hw
  | cons hp _ ih =>
    rw [List.flatMap_cons, List.foldl_append]
    exact ih (isLeft_of_opens hp hw)

theorem after_of_decomposes {ps : List Piece} {last : Text} (h : Decomposes t ps last) :
    after t ≠ string := by
  have hleft := isLeft_of_reads h.reads (.inl rfl)
  rw [h.reads.eq, after, List.foldl_append, foldl_of_isGap hleft.ne_string h.last]
  split
  · exact hleft.ne_string
  · simp

theorem after_of_breaksOff {ps : List Piece} {gap tail : Text} (h : BreaksOff t ps gap tail) :
    after (ps.flatMap Piece.text ++ gap) = nothing := by
  have hleft := isLeft_of_reads h.reads (.inl rfl)
  rw [after, List.foldl_append, foldl_of_isGap hleft.ne_string h.gap]
  split
  · next hgap =>
    -- without a gap the quote itself stands behind the pieces, and it ends no word
    subst hgap
    exact hleft.resolve_right fun hword => not_atBreak_quote hword.2
  · rfl

theorem after_of_open {before tail : Text} (h : after before = nothing) (htail : quote ∉ tail) :
    after (before ++ quote :: tail) = string := by
  rw [after, List.foldl_append, List.foldl_cons, ← after, h]
  exact foldl_of_not_mem_quote htail

end Within

theorem last_quote_unique {a b s t : Text} (hs : quote ∉ s) (ht : quote ∉ t)
    (h : a ++ quote :: s = b ++ quote :: t) : a = b ∧ s = t := by
  have free {t : Text} (ht : quote ∉ t) : ∀ c ∈ [quote], c ∉ t.reverse := by simpa using ht
  have hreverse := congrArg List.reverse h
  simp only [List.reverse_append, List.reverse_cons, List.append_assoc, List.singleton_append] at hreverse
  obtain ⟨hst, hab⟩ := Text.append_stopsAt_inj (free hs) (free ht)
    (Text.stopsAt_cons (by simp)) (Text.stopsAt_cons (by simp)) hreverse
  exact ⟨List.reverse_inj.mp (List.cons.inj hab).2, List.reverse_inj.mp hst⟩

/-- Reading fails exactly at a last quote that stands in no word and in no string. -/
theorem listOf_eq_error_iff {t : Text} {e : Malformed} :
    Token.listOf t = .error e ↔ ∃ before tail, t = before ++ quote :: tail ∧ quote ∉ tail ∧
      Within.after before = .nothing ∧ e = .unclosed t before := by
  constructor
  · intro he
    obtain ⟨ps, gap, tail, h⟩ := (listOf_isError_iff t).mp ⟨e, he⟩
    refine ⟨ps.flatMap Piece.text ++ gap, tail, ?_, h.tail, Within.after_of_breaksOff h, ?_⟩
    · rw [h.reads.eq, List.append_assoc]
    · exact Except.error.inj (he.symm.trans h.listOf_eq)
  · rintro ⟨before, tail, ht, htail, hbefore, rfl⟩
    rcases decomposes_or_breaksOff t with ⟨ps, last, h⟩ | ⟨ps, gap, tail', h⟩
    · exact absurd (ht ▸ Within.after_of_open hbefore htail) (Within.after_of_decomposes h)
    · have heq : before ++ quote :: tail = ps.flatMap Piece.text ++ gap ++ quote :: tail' := by
        rw [← ht, h.reads.eq, List.append_assoc]
      rw [(last_quote_unique htail h.tail heq).1, h.listOf_eq]

theorem listOf_isError_iff_after (t : Text) :
    (∃ e, Token.listOf t = .error e) ↔ Within.after t = .string := by
  constructor
  · rintro ⟨e, he⟩
    obtain ⟨before, tail, rfl, htail, hbefore, -⟩ := listOf_eq_error_iff.mp he
    exact Within.after_of_open hbefore htail
  · intro h
    rcases decomposes_or_breaksOff t with ⟨ps, last, hd⟩ | ⟨ps, gap, tail, hb⟩
    · exact absurd h (Within.after_of_decomposes hd)
    · exact ⟨_, hb.listOf_eq⟩

end MathTokens
