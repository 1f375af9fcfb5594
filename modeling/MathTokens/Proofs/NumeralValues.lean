import MathTokens.Proofs.CorrectRounding
import MathTokens.Proofs.Numerals

/-!
# Values of numerals

A numeral denotes a rational number by the places of its digits. It is read as that number correctly
rounded, so only the number and the sign count, and not how they are written.
-/

namespace MathTokens

def digitValue (c : Char) : ℚ :=
  (c.toNat - '0'.toNat : Nat)

/-- The last digit stands for ones, and each for ten of the next. -/
def wholeValue : Text → ℚ
  | [] => 0
  | c :: t => digitValue c * 10 ^ t.length + wholeValue t

/-- The first digit stands for tenths, and each for a tenth of the one before. -/
def fractionValue : Text → ℚ
  | [] => 0
  | c :: t => (digitValue c + fractionValue t) / 10

/-- The rational number that the numeral denotes. -/
def Numeral.value (n : Numeral) : ℚ :=
  Binary64.signFactor n.minus * (wholeValue n.whole + fractionValue n.fraction)

/-! ## Digits read from the left -/

namespace Decimal

theorem ofDigits_append (a b : Text) : ofDigits (a ++ b) = ofDigits a * 10 ^ b.length + ofDigits b := by
  rw [ofDigits_eq, Nat.ofDigitChars_append, Nat.ofDigitChars_eq_ofDigitChars_zero, ← ofDigits_eq,
    ← ofDigits_eq, Nat.mul_comm]

theorem cast_ofDigits_cons (c : Char) (t : Text) :
    (ofDigits (c :: t) : ℚ) = digitValue c * 10 ^ t.length + ofDigits t := by
  have hone : ofDigits [c] = c.toNat - '0'.toNat := Nat.zero_add _
  rw [← List.singleton_append, ofDigits_append, hone, digitValue]
  push_cast
  rfl

end Decimal

theorem wholeValue_eq (t : Text) : wholeValue t = Decimal.ofDigits t := by
  induction t with
  | nil => simp [wholeValue, Decimal.ofDigits]
  | cons c t ih => rw [wholeValue, ih, Decimal.cast_ofDigits_cons]

theorem fractionValue_eq (t : Text) : fractionValue t = Decimal.ofDigits t / 10 ^ t.length := by
  induction t with
  | nil => simp [fractionValue, Decimal.ofDigits]
  | cons c t ih =>
    rw [fractionValue, ih, Decimal.cast_ofDigits_cons, List.length_cons, pow_succ]
    field_simp

namespace Numeral

theorem value_eq (n : Numeral) : n.value =
    Binary64.signFactor n.minus * (n.decimal.coefficient / (Nat.pow 10 n.decimal.places : Nat)) := by
  have hpow (k : Nat) : ((Nat.pow 10 k : Nat) : ℚ) = 10 ^ k := by
    rw [Nat.pow_eq, Nat.cast_pow, Nat.cast_ofNat]
  unfold value decimal
  rw [wholeValue_eq, fractionValue_eq, hpow, Decimal.ofDigits_append]
  push_cast
  field_simp

theorem rounds_double (n : Numeral) : n.double.Rounds n.value := by
  have hd : 0 < Nat.pow 10 n.decimal.places := Nat.pow_pos (by decide)
  rw [value_eq]
  exact Binary64.rounds_ofRatio _ _ hd

theorem double_eq_zero_iff (n : Numeral) : n.double = .zero n.minus ↔ |n.value| ≤ 1 / 2 ^ 1075 := by
  have hd : 0 < Nat.pow 10 n.decimal.places := Nat.pow_pos (by decide)
  rw [value_eq, Binary64.abs_signFactor_mul, abs_of_nonneg (by positivity),
    ← Binary64.ofRatio_rank_eq_zero_iff n.minus _ hd]
  constructor
  · intro h
    exact congrArg Binary64.rank h
  · intro h
    exact Binary64.ext_of_rank rfl h

theorem double_eq_infinity_iff (n : Numeral) :
    n.double = .infinity n.minus ↔ 2 ^ 1024 - 2 ^ 970 ≤ |n.value| := by
  rw [← n.rounds_double.infinite_iff]
  constructor
  · intro h
    rw [h]
    rfl
  · intro h
    exact Binary64.ext_of_rank rfl (Binary64.rank_of_infinite h)

end Numeral

/-- **Correct rounding.** Each numeral is read as the number that it denotes, rounded to the nearest
double, with the sign that is written. So numerals of one sign that denote one number are read as one
double, and what is read grows with the number. -/
theorem numerals_round_correctly :
    (∀ t, ((Decimal.read? t).map Decimal.toBinary64).isSome → ∃ n : Numeral, n.text = t) ∧
    (∀ n : Numeral, (Decimal.read? n.text).map Decimal.toBinary64 = some n.double ∧
      n.double.negative = n.minus ∧ n.double.Rounds n.value ∧
      (n.double = .infinity n.minus ↔ 2 ^ 1024 - 2 ^ 970 ≤ |n.value|) ∧
      (n.double = .zero n.minus ↔ |n.value| ≤ 1 / 2 ^ 1075)) ∧
    (∀ n m : Numeral, n.value = m.value → n.minus = m.minus → n.double = m.double) ∧
    ∀ n m : Numeral, n.value ≤ m.value → n.double.extended ≤ m.double.extended := by
  refine ⟨fun t h => ?_, fun n => ?_, fun n m h hs => ?_, fun n m h => ?_⟩
  · obtain ⟨x, hx⟩ := Option.isSome_iff_exists.mp h
    obtain ⟨d, hd, -⟩ := Option.map_eq_some_iff.mp hx
    obtain ⟨n, hn, -⟩ := Decimal.exists_numeral_of_read? hd
    exact ⟨n, hn⟩
  · refine ⟨?_, rfl, n.rounds_double, n.double_eq_infinity_iff, n.double_eq_zero_iff⟩
    rw [n.read?_text]
    rfl
  · have hm := m.rounds_double
    rw [← h] at hm
    exact n.rounds_double.unique hm hs
  · exact n.rounds_double.extended_le m.rounds_double h

/-- One more than `2 ^ 53` lies half-way between two doubles and goes to the lower one, which is even,
and zeros at both ends do not matter. -/
theorem numerals_round_correctly_tie :
    let n : Numeral := ⟨false, "9007199254740993".toList, none, by simp [Digits], by simp [Digits], by simp⟩
    let m : Numeral :=
      ⟨false, "09007199254740993".toList, some ['0'], by simp [Digits], by simp [Digits], by simp⟩
    n.value = 2 ^ 53 + 1 ∧ n.value = m.value ∧ n.double = m.double ∧ n.double.Rounds n.value ∧
      n.double.value = 2 ^ 53 ∧ n.double.extended ≤ m.double.extended ∧
      ∃ k : Numeral, k.text = "9007199254740993".toList := by
  intro n m
  have hn : n.value = 2 ^ 53 + 1 := by
    simp [n, Numeral.value, Numeral.fraction, wholeValue, fractionValue, digitValue, Binary64.signFactor]
    norm_num
  have hm : m.value = 2 ^ 53 + 1 := by
    simp [m, Numeral.value, Numeral.fraction, wholeValue, fractionValue, digitValue, Binary64.signFactor]
    norm_num
  obtain ⟨hspelt, hread, hsame, hle⟩ := numerals_round_correctly
  have heq : n.value = m.value := hn.trans hm.symm
  have hsome : ((Decimal.read? "9007199254740993".toList).map Decimal.toBinary64).isSome := by
    decide +kernel
  have hvalue : n.double.value = 2 ^ 53 := by
    have hnegative : n.double.negative = false := rfl
    have hsignificand : n.double.significand = 2 ^ 52 := by decide +kernel
    have hexponent : n.double.exponent = 1 := by decide +kernel
    rw [Binary64.value, hnegative, hsignificand, hexponent]
    norm_num [Binary64.signFactor]
  exact ⟨hn, heq, hsame n m heq rfl, (hread n).2.2.1, hvalue, hle n m heq.le, hspelt _ hsome⟩

end MathTokens
