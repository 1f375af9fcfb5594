import MathTokens.Proofs.Decimals

/-!
# Numerals

A numeral is a written decimal taken apart: its sign, the digits before the point, and the digits after
it. The texts of numerals are exactly the texts that are read as decimals, and a double that is read has
the sign that is written.
-/

namespace MathTokens

structure Numeral where
  minus : Bool
  whole : Text
  fraction? : Option Text
  whole_digits : Digits whole
  fraction_digits : Digits (fraction?.getD [])
  some_digit : whole ≠ [] ∨ fraction?.getD [] ≠ []

namespace Numeral

def fraction (n : Numeral) : Text :=
  n.fraction?.getD []

def text (n : Numeral) : Text :=
  (if n.minus then ['-'] else []) ++ (n.whole ++ n.fraction?.elim [] ('.' :: ·))

def decimal (n : Numeral) : Decimal :=
  ⟨n.minus, Decimal.ofDigits (n.whole ++ n.fraction), n.fraction.length⟩

def double (n : Numeral) : Binary64 :=
  n.decimal.toBinary64

/-! ## Reading numerals -/

theorem spellsUnsigned (n : Numeral) :
    Decimal.SpellsUnsigned n.minus (n.whole ++ n.fraction?.elim [] ('.' :: ·)) n.decimal := by
  obtain ⟨minus, whole, fraction?, hwhole, hfraction, hsome⟩ := n
  unfold decimal fraction
  dsimp only
  cases fraction? with
  | none =>
    have hne : whole ≠ [] := by simpa using hsome
    simp only [Option.elim_none, Option.getD_none, List.append_nil]
    exact .whole hwhole hne
  | some fraction =>
    simp only [Option.elim_some, Option.getD_some] at hfraction hsome ⊢
    by_cases hne : whole = []
    · subst hne
      exact .fraction hfraction (by simpa using hsome)
    · exact .pointed hwhole hfraction hne

theorem spells (n : Numeral) : Decimal.Spells n.text n.decimal := by
  have h := n.spellsUnsigned
  unfold text
  by_cases hminus : n.minus = true
  · rw [hminus] at h
    rw [if_pos hminus]
    exact .minus h
  · rw [Bool.not_eq_true] at hminus
    rw [hminus] at h
    rw [if_neg (by simp [hminus])]
    exact .plain h

theorem read?_text (n : Numeral) : Decimal.read? n.text = some n.decimal :=
  Decimal.read?_eq_some_iff.mpr n.spells

end Numeral

namespace Decimal

theorem SpellsUnsigned.exists_numeral {negative : Bool} {t : Text} {d : Decimal}
    (h : SpellsUnsigned negative t d) : ∃ n : Numeral, n.minus = negative ∧ n.decimal = d ∧
      n.whole ++ n.fraction?.elim [] ('.' :: ·) = t := by
  cases h with
  | whole ha hne =>
    refine ⟨⟨negative, t, none, ha, by simp [Digits], .inl hne⟩, rfl, ?_, ?_⟩
    · simp [Numeral.decimal, Numeral.fraction]
    · simp
  | @pointed a b ha hb hne => exact ⟨⟨negative, a, some b, ha, hb, .inl hne⟩, rfl, rfl, rfl⟩
  | @fraction b hb hne => exact ⟨⟨negative, [], some b, by simp [Digits], hb, .inr hne⟩, rfl, rfl, rfl⟩

theorem Spells.exists_numeral {t : Text} {d : Decimal} (h : Spells t d) :
    ∃ n : Numeral, n.text = t ∧ n.decimal = d := by
  cases h with
  | plain h =>
    obtain ⟨n, hminus, hd, ht⟩ := h.exists_numeral
    exact ⟨n, by simp [Numeral.text, hminus, ht], hd⟩
  | minus h =>
    obtain ⟨n, hminus, hd, ht⟩ := h.exists_numeral
    exact ⟨n, by simp [Numeral.text, hminus, ht], hd⟩

theorem exists_numeral_of_read? {t : Text} {d : Decimal} (h : read? t = some d) :
    ∃ n : Numeral, n.text = t ∧ n.decimal = d :=
  (read?_eq_some_iff.mp h).exists_numeral

end Decimal

def Decimal.characters : List Char :=
  ['-', '.', '0', '1', '2', '3', '4', '5', '6', '7', '8', '9']

namespace Decimal

theorem mem_characters_of_isDigit {c : Char} (h : c.isDigit) : c ∈ characters := by
  obtain ⟨h0, h9⟩ := Char.isDigit_iff_toNat.mp h
  have hrange : '0'.toNat = 48 ∧ '9'.toNat = 57 := ⟨rfl, rfl⟩
  have hc : c = Nat.digitChar (c.toNat - 48) := by
    apply Char.toNat_inj.mp
    rw [Nat.toNat_digitChar_of_lt_ten (by omega)]
    omega
  have all : ∀ k < 10, Nat.digitChar k ∈ characters := by decide
  rw [hc]
  exact all _ (by omega)

theorem Spells.mem_characters {t : Text} {d : Decimal} (h : Spells t d) : ∀ c ∈ t, c ∈ characters := by
  have digit_or_point {c : Char} (hc : c.isDigit ∨ c = '.') : c ∈ characters := by
    rcases hc with hc | rfl
    · exact mem_characters_of_isDigit hc
    · decide
  obtain ⟨c, run, rfl, hc, hrun⟩ := h.chars
  refine List.forall_mem_cons.mpr ⟨?_, fun d hd => digit_or_point (hrun d hd)⟩
  rcases hc with rfl | hc
  · decide
  · exact digit_or_point hc

theorem Spells.negative_iff {t : Text} {d : Decimal} (h : Spells t d) :
    d.negative = true ↔ t.head? = some '-' := by
  obtain ⟨n, rfl, rfl⟩ := h.exists_numeral
  have hhead : (n.whole ++ n.fraction?.elim [] ('.' :: ·)).head? ≠ some '-' := by
    intro he
    have hchar := n.spellsUnsigned.chars '-' (List.mem_of_mem_head? he)
    simp at hchar
  unfold Numeral.text
  by_cases hminus : n.minus = true
  · simp [Numeral.decimal, hminus]
  · simpa [Numeral.decimal, hminus] using hhead

end Decimal

/-- **Numerals.** The texts that are read as numbers are exactly the texts of numerals, so they hold
digits, a minus sign and a point alone. The number is negative, or a negative zero, exactly if the text
begins with the sign. -/
theorem number_read_iff_numeral (t : Text) :
    (((Decimal.read? t).map Decimal.toBinary64).isSome ↔ ∃ n : Numeral, n.text = t) ∧
      ∀ x, (Decimal.read? t).map Decimal.toBinary64 = some x →
        (∀ c ∈ t, c ∈ Decimal.characters) ∧ (x.negative = true ↔ t.head? = some '-') := by
  constructor
  · rw [Option.isSome_map]
    constructor
    · intro h
      obtain ⟨d, hd⟩ := Option.isSome_iff_exists.mp h
      obtain ⟨n, hn, -⟩ := Decimal.exists_numeral_of_read? hd
      exact ⟨n, hn⟩
    · rintro ⟨n, rfl⟩
      rw [n.read?_text]
      rfl
  · intro x hx
    obtain ⟨d, hd, rfl⟩ := Option.map_eq_some_iff.mp hx
    have hspells := Decimal.read?_eq_some_iff.mp hd
    exact ⟨hspells.mem_characters, hspells.negative_iff⟩

/-- A negative zero with a point and no digit after it. -/
theorem number_read_iff_numeral_minus_zero :
    let t := ['-', '0', '.']
    let x := Decimal.toBinary64 ⟨true, 0, 0⟩
    (Decimal.read? t).map Decimal.toBinary64 = some x ∧ (∃ n : Numeral, n.text = t) ∧
      x.negative = true ∧ x.rank = 0 := by
  intro t x
  have hread : (Decimal.read? t).map Decimal.toBinary64 = some x := by decide +kernel
  obtain ⟨hiff, hsign⟩ := number_read_iff_numeral t
  exact ⟨hread, hiff.mp (by rw [hread]; rfl), (hsign x hread).2.mpr rfl, by decide +kernel⟩

end MathTokens
