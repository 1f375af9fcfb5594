import MathTokens.Listing.Lines
import MathTokens.Proofs.Decomposition
import MathTokens.Proofs.NumberTexts

/-!
# Scanning written numbers

The written form of a finite double is a numeral unless it has an exponent. A numeral alone is a text of
one token, and shortest digits read back, so the token has the double that was written. Words and
exponents have letters, and no numeral has one.
-/

namespace MathTokens

theorem listOf_of_stands {l : Lexeme} (h : Stands l []) :
    Token.listOf l.raw = .ok [⟨l.content, l.raw, .after [], .after l.raw⟩] := by
  have hgap : IsGap [] := by simp [IsGap]
  have heq : l.raw = (⟨[], l⟩ : Piece).text ++ [] := by simp [Piece.text]
  have hd : Decomposes l.raw [⟨[], l⟩] [] := ⟨.cons ⟨heq, hgap, h⟩ .nil, hgap⟩
  rw [hd.listOf_eq]
  simp [Piece.tokens, Piece.token, Token.after]

theorem not_isDecimal_of_mem {t : Text} {c : Char} (hc : c ∈ t)
    (hchar : c ≠ '-' ∧ c ≠ '.' ∧ c.isDigit = false) : ¬IsDecimal t := by
  rintro ⟨d, hd⟩
  obtain ⟨first, run, rfl, hfirst, hrun⟩ := hd.chars
  rcases List.mem_cons.mp hc with rfl | hc
  · simp [hchar] at hfirst
  · have hcrun := hrun c hc
    simp [hchar] at hcrun

namespace Binary64

variable {x : Binary64}

theorem mem_toText_of_mem {c : Char} (h : c ∈ magnitudeText x.rank) : c ∈ x.toText := by
  rw [toText_eq]
  exact List.mem_append_right _ h

theorem letter_mem_toText (hx : x.isFinite = false) : 'i' ∈ x.toText := by
  apply mem_toText_of_mem
  have h := shows_magnitudeText x
  generalize magnitudeText x.rank = t at h
  cases h with
  | infinite => simp
  | plain hfin => simp [hx] at hfin
  | scaled hfin => simp [hx] at hfin

/-- Without an exponent the written form spells a decimal whose double is the one written. -/
theorem exists_spells_toText (hx : x.isFinite = true) (he : 'e' ∉ x.toText) :
    ∃ d, Decimal.Spells x.toText d ∧ d.toBinary64 = x := by
  have he : 'e' ∉ magnitudeText x.rank := fun h => he (mem_toText_of_mem h)
  rw [toText_eq]
  have h := shows_magnitudeText x
  generalize magnitudeText x.rank = t at h he
  cases h with
  | infinite hinf => simp [hx] at hinf
  | @plain whole fraction _ hwhole hfraction _ hvalue =>
    refine ⟨_, ?_, hvalue⟩
    have hne : whole ≠ [] := by cases hwhole <;> simp
    have hunsigned (negative : Bool) : Decimal.SpellsUnsigned negative (whole ++ '.' :: fraction) _ :=
      .pointed hwhole.digits hfraction hne
    by_cases hs : x.negative = true
    · rw [if_pos hs, hs]
      exact .minus (hunsigned true)
    · rw [if_neg hs]
      rw [Bool.not_eq_true] at hs
      rw [hs]
      exact .plain (hunsigned false)
  | scaled => simp [scientific_cons] at he

end Binary64

/-- **Written numbers scan back.** What stands behind the kind on the line of a number is the text of one
token with the same double, unless the double is infinite or written with an exponent; then it is no
decimal. -/
theorem printed_number_scans_back {t : Token} {x : Binary64} {text : Text} (hx : t.content = .number x)
    (hline : t.line false = "NUMBER ".toList ++ text) :
    (x.isFinite = true → 'e' ∉ text →
      Token.listOf text = .ok [⟨.number x, text, .after [], .after text⟩]) ∧
    (x.isFinite = false ∨ 'e' ∈ text → Decimal.read? text = none) := by
  obtain rfl : x.toText = text := by
    have hlabel : t.line false = "NUMBER ".toList ++ x.toText := by
      rw [Token.line, hx, if_neg (by decide), List.append_nil]
      rfl
    exact List.append_cancel_left (hlabel.symm.trans hline)
  constructor
  · intro hfin he
    obtain ⟨d, hspells, rfl⟩ := x.exists_spells_toText hfin he
    exact listOf_of_stands (l := ⟨.number d.toBinary64, d.toBinary64.toText⟩)
      (.number hspells (by simp [AtBreak]))
  · intro h
    rw [Decimal.read?_eq_none_iff]
    rcases h with hinf | he
    · exact not_isDecimal_of_mem (x.letter_mem_toText hinf) (by decide)
    · exact not_isDecimal_of_mem he (by decide)

/-- The negative zero is written with a point and scans back; ten to the sixteenth has an exponent. -/
theorem printed_number_scans_back_minus_zero :
    let x := Decimal.toBinary64 ⟨true, 0, 0⟩
    let y := Decimal.toBinary64 ⟨false, Nat.pow 10 16, 0⟩
    let t : Token := ⟨.number x, ['-', '0'], ⟨1, 1, 0⟩, ⟨1, 3, 2⟩⟩
    let u : Token := ⟨.number y, "10000000000000000".toList, ⟨1, 1, 0⟩, ⟨1, 18, 17⟩⟩
    Token.listOf ['-', '0'] = .ok [t] ∧ t.line false = "NUMBER -0.0".toList ∧
      Token.listOf "-0.0".toList = .ok [⟨.number x, "-0.0".toList, ⟨1, 1, 0⟩, ⟨1, 5, 4⟩⟩] ∧
      Token.listOf "10000000000000000".toList = .ok [u] ∧ u.line false = "NUMBER 1e+16".toList ∧
      Decimal.read? "1e+16".toList = none := by
  intro x y t u
  have ht : t.line false = "NUMBER -0.0".toList := by decide +kernel
  have hu : u.line false = "NUMBER 1e+16".toList := by decide +kernel
  obtain ⟨hscans, -⟩ := printed_number_scans_back (show t.content = .number x from rfl) ht
  obtain ⟨-, hnone⟩ := printed_number_scans_back (show u.content = .number y from rfl) hu
  exact ⟨by decide +kernel, ht, hscans (by decide +kernel) (by decide), by decide +kernel, hu,
    hnone (.inr (by decide))⟩

end MathTokens
