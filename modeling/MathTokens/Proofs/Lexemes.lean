import MathTokens.Lexeme
import MathTokens.Proofs.Decimals

/-!
# The grammar of lexemes

`Stands l rest` says that the lexeme `l` may stand in front of the text `rest`. What follows matters:
a number or a name has to stop at a breakpoint or at the end of the text, and a minus sign is a
symbol only where the text up to there is no decimal. Reading finds the lexeme at the front of a
text exactly if one may stand there, and so there is one at most.
-/

namespace MathTokens

def IsGap (t : Text) : Prop :=
  ∀ c ∈ t, c = ' ' ∨ c = '\n'

def IsBreak (c : Char) : Prop :=
  c = ' ' ∨ c = '\n' ∨ c = ';' ∨ c = '+' ∨ c = '=' ∨ c = '-'

/-- A breakpoint stands at the front of `t`, or `t` is empty. -/
def AtBreak (t : Text) : Prop :=
  ∀ c, t.head? = some c → IsBreak c

/-- The text `t` up to its first breakpoint is `run`, and `more` is what follows. -/
structure Cut (t run more : Text) : Prop where
  eq : t = run ++ more
  free : ∀ c ∈ run, ¬IsBreak c
  stops : AtBreak more

inductive Stands : Lexeme → Text → Prop
  | string {inner rest} : quote ∉ inner →
      Stands ⟨.string (Text.trim inner), quote :: inner ++ [quote]⟩ rest
  | number {raw d rest} : Decimal.Spells raw d → AtBreak rest → Stands ⟨.number d.toBinary64, raw⟩ rest
  | symbol {c rest} : c = ';' ∨ c = '+' ∨ c = '=' → Stands ⟨.symbol c, [c]⟩ rest
  | minus {run more rest} : Cut rest run more → ¬IsDecimal ('-' :: run) →
      Stands ⟨.symbol '-', ['-']⟩ rest
  | name {c run rest} : ¬IsBreak c → c ≠ quote → (∀ d ∈ run, ¬IsBreak d) → ¬IsDecimal (c :: run) →
      AtBreak rest → Stands ⟨.name (c :: run), c :: run⟩ rest

/-- Numbers and names end only at a breakpoint or at the end of the text. -/
def Kind.IsWord (k : Kind) : Prop :=
  k = .name ∨ k = .number

/-! ## Classes of characters -/

theorem isGap_eq_true_iff {c : Char} : isGap c = true ↔ c = ' ' ∨ c = '\n' := by
  simp [isGap, gapCharacters, or_comm]

theorem isBreakpoint_eq_true_iff {c : Char} : isBreakpoint c = true ↔ IsBreak c := by
  simp only [isBreakpoint, isGap, isSymbol, gapCharacters, symbols, IsBreak, Bool.or_eq_true,
    List.contains_iff_mem, List.mem_cons, List.not_mem_nil, or_false]
  grind

theorem isBreakpoint_eq_false_iff {c : Char} : isBreakpoint c = false ↔ ¬IsBreak c := by
  rw [← isBreakpoint_eq_true_iff, Bool.not_eq_true]

theorem isSymbol_eq_true_iff {c : Char} : isSymbol c = true ↔ c = ';' ∨ c = '+' ∨ c = '=' ∨ c = '-' := by
  simp only [isSymbol, symbols, List.contains_iff_mem, List.mem_cons, List.not_mem_nil, or_false]
  grind

theorem not_isBreak_quote : ¬IsBreak quote := by
  simp [IsBreak, quote]

theorem not_isBreak_of_isDigit {c : Char} (h : c.isDigit ∨ c = '.') : ¬IsBreak c := by
  rintro (rfl | rfl | rfl | rfl | rfl | rfl) <;> revert h <;> decide

theorem isGap_takeWhile (t : Text) : IsGap (t.takeWhile isGap) := fun _ hc =>
  isGap_eq_true_iff.mp (List.mem_takeWhile_imp hc)

theorem IsGap.append {a b : Text} (ha : IsGap a) (hb : IsGap b) : IsGap (a ++ b) := by
  intro c hc
  rcases List.mem_append.mp hc with hc | hc
  · exact ha c hc
  · exact hb c hc

theorem takeWhile_isGap {g t : Text} (hg : IsGap g) (ht : ∀ c, t.head? = some c → isGap c = false) :
    (g ++ t).takeWhile isGap = g ∧ (g ++ t).dropWhile isGap = t :=
  have hg : ∀ c ∈ g, isGap c := fun c hc => isGap_eq_true_iff.mpr (hg c hc)
  ⟨Text.takeWhile_append_of_stop hg ht, Text.dropWhile_append_of_stop hg ht⟩

theorem isGap_head_dropWhile {t rest : Text} {c : Char} (h : t.dropWhile isGap = c :: rest) :
    isGap c = false := by
  have := List.head?_dropWhile_not isGap t
  rw [h] at this
  exact this

/-! ## Cutting at a breakpoint -/

theorem cut_takeWhile (t : Text) :
    Cut t (t.takeWhile (!isBreakpoint ·)) (t.dropWhile (!isBreakpoint ·)) where
  eq := List.takeWhile_append_dropWhile.symm
  free c hc := by
    have := List.mem_takeWhile_imp hc
    exact isBreakpoint_eq_false_iff.mp (by simpa using this)
  stops c hc := by
    have := List.head?_dropWhile_not (!isBreakpoint ·) t
    rw [hc] at this
    exact isBreakpoint_eq_true_iff.mp (by simpa using this)

theorem not_atBreak_quote {t : Text} : ¬AtBreak (quote :: t) := fun h =>
  not_isBreak_quote (h quote rfl)

theorem AtBreak.append {t : Text} (h : AtBreak t) (hne : t ≠ []) (u : Text) : AtBreak (t ++ u) := by
  obtain ⟨c, t, rfl⟩ := List.exists_cons_of_ne_nil hne
  intro d hd
  exact h d hd

theorem AtBreak.of_append {t u : Text} (h : AtBreak (t ++ u)) : AtBreak t := by
  intro c hc
  exact h c (by rw [List.head?_append, hc]; rfl)

theorem Cut.takeWhile_eq {t run more : Text} (h : Cut t run more) :
    t.takeWhile (!isBreakpoint ·) = run := by
  rw [h.eq]
  refine Text.takeWhile_append_of_stop (fun c hc => ?_) (fun c hc => ?_)
  · simp [isBreakpoint_eq_false_iff.mpr (h.free c hc)]
  · simp [isBreakpoint_eq_true_iff.mpr (h.stops c hc)]

theorem Cut.run_unique {t run run' more more' : Text} (h : Cut t run more) (h' : Cut t run' more') :
    run = run' := by
  rw [← h.takeWhile_eq, h'.takeWhile_eq]

theorem Decimal.Spells.cut {raw rest : Text} {d : Decimal} (h : Spells raw d)
    (hr : AtBreak rest) :
    ∃ c run, raw = c :: run ∧ (c = '-' ∨ c.isDigit ∨ c = '.') ∧ Cut (run ++ rest) run rest := by
  -- the first character may be a minus sign, which is itself a breakpoint
  obtain ⟨c, run, rfl, hc, hrun⟩ := h.chars
  exact ⟨c, run, rfl, hc, rfl, fun x hx => not_isBreak_of_isDigit (hrun x hx), hr⟩

/-! ## Reading a string -/

theorem Lexeme.readString?_eq_some_iff {rest : Text} {l : Lexeme} :
    Lexeme.readString? rest = some l ↔ ∃ inner more, rest = inner ++ quote :: more ∧
      quote ∉ inner ∧ l = ⟨.string (Text.trim inner), quote :: inner ++ [quote]⟩ := by
  unfold Lexeme.readString?
  constructor
  · intro h
    split at h
    · next hq =>
      cases h
      refine ⟨_, _, (Text.takeWhile_append_cons_tail (by simpa using hq)).symm, fun hm => ?_, rfl⟩
      have := List.mem_takeWhile_imp hm
      simp at this
    · cases h
  · rintro ⟨inner, more, rfl, hi, rfl⟩
    have free : ∀ c ∈ inner, decide (c ≠ quote) = true := by
      intro c hc
      have : c ≠ quote := fun e => hi (e ▸ hc)
      simpa using this
    rw [Text.takeWhile_append_of_stop free (by simp), if_pos (by simp)]

theorem Lexeme.readString?_eq_none_iff {rest : Text} : Lexeme.readString? rest = none ↔ quote ∉ rest := by
  simp [Lexeme.readString?]

/-! ## Reading a word -/

theorem Lexeme.readWord_of_decimal {c : Char} {rest run more : Text} {d : Decimal} (hc : c ≠ '+')
    (hcut : Cut rest run more) (hd : Decimal.Spells (c :: run) d) :
    Lexeme.readWord c rest = ⟨.number d.toBinary64, c :: run⟩ := by
  simp only [Lexeme.readWord, hcut.takeWhile_eq, if_neg hc, Decimal.read?_eq_some_iff.mpr hd]

theorem Lexeme.readWord_of_not_decimal {c : Char} {rest run more : Text} (hcut : Cut rest run more)
    (hd : ¬IsDecimal (c :: run)) :
    Lexeme.readWord c rest = if isSymbol c then ⟨.symbol c, [c]⟩ else ⟨.name (c :: run), c :: run⟩ := by
  have : (if c = '+' then none else Decimal.read? (c :: run)) = none := by
    split
    · rfl
    · exact Decimal.read?_eq_none_iff.mpr hd
  simp only [Lexeme.readWord, hcut.takeWhile_eq, this]

theorem not_isDecimal_of_symbol {c : Char} {run : Text} (hc : c = ';' ∨ c = '+' ∨ c = '=') :
    ¬IsDecimal (c :: run) := by
  rintro ⟨d, hd⟩
  obtain ⟨_, _, he, hc', -⟩ := hd.chars
  cases he
  rcases hc with rfl | rfl | rfl <;> revert hc' <;> decide

theorem Lexeme.readWord_stands {c : Char} {rest : Text} (hg : isGap c = false) (hq : c ≠ quote) :
    ∃ more, c :: rest = (Lexeme.readWord c rest).raw ++ more ∧ Stands (Lexeme.readWord c rest) more := by
  have hcut := cut_takeWhile rest
  generalize rest.takeWhile (!isBreakpoint ·) = run at hcut
  generalize rest.dropWhile (!isBreakpoint ·) = more at hcut
  by_cases hd : IsDecimal (c :: run)
  · obtain ⟨d, hd⟩ := hd
    have hc : c ≠ '+' := by
      rintro rfl
      exact not_isDecimal_of_symbol (.inr (.inl rfl)) ⟨d, hd⟩
    rw [Lexeme.readWord_of_decimal hc hcut hd]
    exact ⟨more, by rw [List.cons_append, ← hcut.eq], .number hd hcut.stops⟩
  · rw [Lexeme.readWord_of_not_decimal hcut hd]
    by_cases hs : isSymbol c = true
    · rw [if_pos hs]
      refine ⟨rest, rfl, ?_⟩
      rcases isSymbol_eq_true_iff.mp hs with h | h | h | rfl
      · exact .symbol (.inl h)
      · exact .symbol (.inr (.inl h))
      · exact .symbol (.inr (.inr h))
      · exact .minus hcut hd
    · rw [if_neg hs]
      have hb : isBreakpoint c = false := by simp [isBreakpoint, hg, hs]
      exact ⟨more, by rw [List.cons_append, ← hcut.eq],
        .name (isBreakpoint_eq_false_iff.mp hb) hq hcut.free hd hcut.stops⟩

/-! ## Reading a lexeme -/

theorem Lexeme.read?_stands {c : Char} {rest : Text} {l : Lexeme} (hg : isGap c = false)
    (h : Lexeme.read? c rest = some l) : ∃ more, c :: rest = l.raw ++ more ∧ Stands l more := by
  unfold Lexeme.read? at h
  split at h
  · next hc =>
    subst hc
    obtain ⟨inner, more, rfl, hi, rfl⟩ := Lexeme.readString?_eq_some_iff.mp h
    exact ⟨more, by simp, .string hi⟩
  · next hc =>
    cases h
    exact Lexeme.readWord_stands hg hc

theorem Stands.read? {c : Char} {rest more : Text} {l : Lexeme} (h : Stands l more)
    (he : l.raw ++ more = c :: rest) : isGap c = false ∧ Lexeme.read? c rest = some l := by
  cases h with
  | @string inner rest hi =>
    simp only [List.cons_append, List.append_assoc, List.cons.injEq, List.nil_append] at he
    obtain ⟨rfl, rfl⟩ := he
    refine ⟨by decide, ?_⟩
    rw [Lexeme.read?, if_pos rfl]
    exact Lexeme.readString?_eq_some_iff.mpr ⟨inner, more, rfl, hi, rfl⟩
  | @number raw d _ hd hs =>
    obtain ⟨x, run, rfl, hx, hcut⟩ := hd.cut hs
    simp only [List.cons_append, List.cons.injEq] at he
    obtain ⟨rfl, rfl⟩ := he
    have : isGap x = false ∧ x ≠ quote ∧ x ≠ '+' := by
      refine ⟨Bool.eq_false_iff.mpr ?_, ?_, ?_⟩
      · rw [ne_eq, isGap_eq_true_iff]
        rintro (rfl | rfl) <;> revert hx <;> decide
      · rintro rfl; revert hx; decide
      · rintro rfl; revert hx; decide
    refine ⟨this.1, ?_⟩
    rw [Lexeme.read?, if_neg this.2.1, Lexeme.readWord_of_decimal this.2.2 hcut hd]
  | @symbol x _ hx =>
    simp only [List.cons_append, List.nil_append, List.cons.injEq] at he
    obtain ⟨rfl, rfl⟩ := he
    have : isGap x = false ∧ x ≠ quote ∧ isSymbol x = true := by
      rcases hx with rfl | rfl | rfl <;> decide
    refine ⟨this.1, ?_⟩
    rw [Lexeme.read?, if_neg this.2.1,
      Lexeme.readWord_of_not_decimal (cut_takeWhile more) (not_isDecimal_of_symbol hx), if_pos this.2.2]
  | minus hcut hd =>
    simp only [List.cons_append, List.nil_append, List.cons.injEq] at he
    obtain ⟨rfl, rfl⟩ := he
    refine ⟨by decide, ?_⟩
    rw [Lexeme.read?, if_neg (by decide), Lexeme.readWord_of_not_decimal hcut hd, if_pos (by decide)]
  | @name x run _ hx hq hrun hd hs =>
    simp only [List.cons_append, List.cons.injEq] at he
    obtain ⟨rfl, rfl⟩ := he
    have hb := isBreakpoint_eq_false_iff.mpr hx
    simp only [isBreakpoint, Bool.or_eq_false_iff] at hb
    refine ⟨hb.1, ?_⟩
    rw [Lexeme.read?, if_neg hq, Lexeme.readWord_of_not_decimal ⟨rfl, hrun, hs⟩ hd, if_neg (by simp [hb.2])]

theorem Stands.raw_ne_nil {l : Lexeme} {rest : Text} (h : Stands l rest) : l.raw ≠ [] := by
  cases h with
  | number hd hs =>
    obtain ⟨_, _, rfl, -⟩ := hd.chars
    simp
  | _ => simp

theorem Lexeme.read?_eq_some_iff {c : Char} {rest : Text} {l : Lexeme} (hg : isGap c = false) :
    Lexeme.read? c rest = some l ↔ ∃ more, c :: rest = l.raw ++ more ∧ Stands l more :=
  ⟨Lexeme.read?_stands hg, fun ⟨_, he, h⟩ => (h.read? he.symm).2⟩

theorem Lexeme.read?_eq_none_iff {c : Char} {rest : Text} :
    Lexeme.read? c rest = none ↔ c = quote ∧ quote ∉ rest := by
  unfold Lexeme.read?
  split
  · next hc => simp [Lexeme.readString?_eq_none_iff, hc]
  · next hc => simp [hc]

/-! ## What a lexeme needs of the text behind it -/

section
variable {l : Lexeme} {rest rest' : Text}

theorem Stands.atBreak (h : Stands l rest) (hk : l.content.kind.IsWord) : AtBreak rest := by
  cases h with
  | number _ hs => exact hs
  | name _ _ _ _ hs => exact hs
  | _ => simp [Kind.IsWord, Content.kind] at hk

theorem Stands.not_isDecimal_minus (h : Stands l rest) (hraw : l.raw = ['-']) :
    ¬IsDecimal ('-' :: rest.takeWhile (!isBreakpoint ·)) := by
  cases h with
  | string => cases (List.cons.inj hraw).1
  | number hd =>
    obtain rfl := hraw
    exact absurd rfl hd.chars_minus.1
  | symbol hc =>
    obtain rfl := (List.cons.inj hraw).1
    exact absurd hc (by decide)
  | minus hcut hd => rwa [hcut.takeWhile_eq]
  | name hb =>
    obtain rfl := (List.cons.inj hraw).1
    simp [IsBreak] at hb

/-- Behind a word there has to be a breakpoint or nothing, behind a minus sign no digits that make it
the sign of a decimal. Other lexemes stand anywhere. -/
theorem Stands.stands_iff (h : Stands l rest) :
    Stands l rest' ↔ (l.content.kind.IsWord → AtBreak rest') ∧
      (l.raw = ['-'] → ¬IsDecimal ('-' :: rest'.takeWhile (!isBreakpoint ·))) := by
  constructor
  · intro h'
    exact ⟨h'.atBreak, h'.not_isDecimal_minus⟩
  · rintro ⟨hword, hminus⟩
    cases h with
    | string hi => exact .string hi
    | number hd => exact .number hd (hword (.inr rfl))
    | symbol hc => exact .symbol hc
    | minus => exact .minus (cut_takeWhile rest') (hminus rfl)
    | name hb hq hr hd => exact .name hb hq hr hd (hword (.inl rfl))

/-- The search for a breakpoint ends before the text that is put behind, or goes on into it. -/
theorem takeWhile_append_cases (t u : Text) :
    (t ++ u).takeWhile (!isBreakpoint ·) = t.takeWhile (!isBreakpoint ·) ∨
      t.takeWhile (!isBreakpoint ·) = t ∧
        (t ++ u).takeWhile (!isBreakpoint ·) = t ++ u.takeWhile (!isBreakpoint ·) := by
  rw [List.takeWhile_append]
  split
  · next h => exact .inr ⟨(List.takeWhile_prefix _).eq_of_length h, rfl⟩
  · exact .inl rfl

end

end MathTokens
