import Mathlib.Algebra.Order.Field.Basic
import Mathlib.Algebra.Order.Field.Rat
import Mathlib.Order.WithBot
import Mathlib.Tactic.FieldSimp
import Mathlib.Tactic.NormNum
import MathTokens.Proofs.Halfways
import MathTokens.Proofs.NumberTexts

/-!
# Correct rounding

A double is read by its fields, as the standard of binary arithmetic reads it. `Rounds q x` says that `x`
is the rational `q` correctly rounded: no finite double is nearer, a tie goes to an even significand, and
only what lies half a spacing beyond the largest finite double goes to infinity. There is one such double
for each sign, it grows with `q`, and a quotient is rounded to it.
-/

namespace MathTokens.Binary64

/-! ## The number a double stands for -/

def exponentField (x : Binary64) : Nat := x.rank / 2 ^ 52

def fractionField (x : Binary64) : Nat := x.rank % 2 ^ 52

/-- The fraction with the leading bit that is not written, which subnormal numbers and zero lack. -/
def significand (x : Binary64) : Nat :=
  if x.exponentField = 0 then x.fractionField else 2 ^ 52 + x.fractionField

/-- The power of two that the last bit of the significand stands for. -/
def exponent (x : Binary64) : Int :=
  max (x.exponentField : Int) 1 - 1075

def signFactor (negative : Bool) : ℚ :=
  if negative then -1 else 1

def value (x : Binary64) : ℚ :=
  signFactor x.negative * x.significand * 2 ^ x.exponent

/-- The place of a double among the rationals and the two infinities. -/
def extended (x : Binary64) : WithBot (WithTop ℚ) :=
  if x.isFinite then ((x.value : WithTop ℚ) : WithBot (WithTop ℚ))
  else if x.negative then ⊥ else ⊤

/-- The double `x` is the rational `q` rounded to the nearest double, and of two that are as near to the
one of even significand. -/
structure Rounds (q : ℚ) (x : Binary64) : Prop where
  negative_iff : q ≠ 0 → (x.negative = true ↔ q < 0)
  infinite_iff : x.isFinite = false ↔ 2 ^ 1024 - 2 ^ 970 ≤ |q|
  nearest : x.isFinite → ∀ y : Binary64, y.isFinite → |q - x.value| ≤ |q - y.value|
  even : x.isFinite → ∀ y : Binary64, y.isFinite → y.value ≠ x.value →
    |q - y.value| = |q - x.value| → x.significand % 2 = 0

/-- How many units, of the least positive double each, make one. -/
def scale : Nat := Nat.pow 2 1074

def magnitude (rank : Nat) : ℚ :=
  units rank / scale

section
variable {x y : Binary64}

theorem scale_pos : 0 < scale := by
  have pos (n : Nat) : 0 < Nat.pow 2 n := Nat.two_pow_pos n
  unfold scale
  apply pos

theorem cast_scale : (scale : ℚ) = 2 ^ 1074 := by
  have cast (n : Nat) : ((Nat.pow 2 n : Nat) : ℚ) = 2 ^ n := by
    rw [Nat.pow_eq, Nat.cast_pow, Nat.cast_ofNat]
  unfold scale
  apply cast

theorem units_eq (x : Binary64) : units x.rank = x.significand * 2 ^ (x.exponentField - 1) := by
  unfold units significand exponentField fractionField
  simp only [Nat.pow_eq]
  by_cases h : x.rank < 2 ^ 52
  · have hzero : x.rank / 2 ^ 52 = 0 := by omega
    rw [if_pos h, hzero, if_pos rfl]
    omega
  · rw [if_neg h, if_neg (by omega)]

theorem significand_mod_two (x : Binary64) : x.significand % 2 = x.rank % 2 := by
  unfold significand fractionField
  split <;> omega

theorem value_eq (x : Binary64) : x.value = signFactor x.negative * magnitude x.rank := by
  have hexponent : x.exponent = ((x.exponentField - 1 : ℕ) : ℤ) - ((1074 : ℕ) : ℤ) := by
    unfold exponent
    omega
  unfold value magnitude
  rw [hexponent, zpow_sub₀ two_ne_zero, zpow_natCast, zpow_natCast, ← cast_scale, units_eq, Nat.cast_mul,
    Nat.cast_pow, Nat.cast_ofNat, mul_assoc, mul_div_assoc]

theorem magnitude_zero : magnitude 0 = 0 := by
  rw [magnitude, show units 0 = 0 from rfl, Nat.cast_zero, zero_div]

theorem magnitude_strictMono : StrictMono magnitude := by
  intro a b h
  have hlt : (units a : ℚ) < units b := Nat.cast_lt.mpr (units_strictMono h)
  exact div_lt_div_of_pos_right hlt (Nat.cast_pos.mpr scale_pos)

theorem magnitude_nonneg (rank : Nat) : 0 ≤ magnitude rank := by
  unfold magnitude
  positivity

theorem rank_eq_of_value_eq (hs : x.negative = y.negative) (h : x.value = y.value) : x.rank = y.rank := by
  rw [value_eq, value_eq, hs] at h
  apply magnitude_strictMono.injective
  unfold signFactor at h
  split at h <;> linarith

theorem magnitude_grid {e k : Nat} (h : e = 0 ∨ 2 ^ 52 ≤ k) (hk : k ≤ 2 ^ 53) :
    magnitude (e * 2 ^ 52 + k) = k * 2 ^ e / 2 ^ 1074 := by
  rw [magnitude, units_grid h hk, cast_scale, Nat.cast_mul, Nat.cast_pow, Nat.cast_ofNat]

theorem magnitude_least : magnitude 1 = 1 / 2 ^ 1074 := by
  have h := magnitude_grid (e := 0) (k := 1) (.inl rfl) (by decide)
  rwa [Nat.zero_mul, Nat.zero_add, pow_zero, mul_one, Nat.cast_one] at h

theorem magnitude_last_binade {k : Nat} (h : 2 ^ 52 ≤ k) (hk : k ≤ 2 ^ 53) :
    magnitude (2045 * 2 ^ 52 + k) = k * 2 ^ 971 := by
  have hpow : (2 : ℚ) ^ 2045 = 2 ^ 971 * 2 ^ 1074 := by rw [← pow_add]
  rw [magnitude_grid (.inr h) hk, hpow, ← mul_assoc, mul_div_cancel_right₀ _ (by positivity)]

theorem two_pow_top_eq : (2 : ℚ) ^ 1024 = 2 ^ 53 * 2 ^ 971 := by
  rw [← pow_add]

theorem magnitude_last : magnitude (infinityRank - 1) = 2 ^ 1024 - 2 ^ 971 := by
  have hrank : infinityRank - 1 = 2045 * 2 ^ 52 + (2 ^ 53 - 1) := by decide
  rw [hrank, magnitude_last_binade (by decide) (by decide), two_pow_top_eq, Nat.cast_sub (by decide)]
  generalize (2 : ℚ) ^ 971 = spacing
  push_cast
  ring

theorem magnitude_infinityRank : magnitude infinityRank = 2 ^ 1024 := by
  have hrank : infinityRank = 2045 * 2 ^ 52 + 2 ^ 53 := by decide
  rw [hrank, magnitude_last_binade (by decide) (by decide), two_pow_top_eq, Nat.cast_pow,
    Nat.cast_ofNat]

end

/-! ## Distances -/

section
variable {a b q : ℚ}

theorem abs_sub_low_le_iff (h : a < b) : |q - a| ≤ |q - b| ↔ 2 * q ≤ a + b := by
  rw [← sq_le_sq]
  constructor <;> intro hq <;> nlinarith

theorem abs_sub_high_le_iff (h : a < b) : |q - b| ≤ |q - a| ↔ a + b ≤ 2 * q := by
  rw [← sq_le_sq]
  constructor <;> intro hq <;> nlinarith

theorem signFactor_mul_self (negative : Bool) : signFactor negative * signFactor negative = 1 := by
  cases negative <;> simp [signFactor]

theorem abs_signFactor_mul (negative : Bool) (a : ℚ) : |signFactor negative * a| = |a| := by
  cases negative <;> simp [signFactor]

theorem abs_signFactor_mul_sub (negative : Bool) (a b : ℚ) :
    |signFactor negative * a - signFactor negative * b| = |a - b| := by
  rw [← mul_sub, abs_signFactor_mul]

theorem abs_sub_signFactor_mul (negative : Bool) (q a : ℚ) :
    |q - signFactor negative * a| = |signFactor negative * q - a| := by
  rw [← abs_signFactor_mul_sub negative, ← mul_assoc, signFactor_mul_self, one_mul]

end

/-! ## Rounding a quotient -/

section
variable {num den : Nat}

theorem two_mul_le_iff (hd : 0 < den) {a b : Nat} :
    2 * ((num : ℚ) / den) ≤ magnitude a + magnitude b ↔ 2 * (num * scale) ≤ (units a + units b) * den := by
  have hd : (0 : ℚ) < den := Nat.cast_pos.mpr hd
  have hscale : (0 : ℚ) < scale := Nat.cast_pos.mpr scale_pos
  unfold magnitude
  rw [← add_div, ← mul_div_assoc, div_le_div_iff₀ hd hscale, mul_assoc]
  exact_mod_cast Iff.rfl

theorem le_two_mul_iff (hd : 0 < den) {a b : Nat} :
    magnitude a + magnitude b ≤ 2 * ((num : ℚ) / den) ↔ (units a + units b) * den ≤ 2 * (num * scale) := by
  have hd : (0 : ℚ) < den := Nat.cast_pos.mpr hd
  have hscale : (0 : ℚ) < scale := Nat.cast_pos.mpr scale_pos
  unfold magnitude
  rw [← add_div, ← mul_div_assoc, div_le_div_iff₀ hscale hd, mul_assoc 2]
  exact_mod_cast Iff.rfl

theorem abs_sub_magnitude_le (hd : 0 < den) (rank : Nat) :
    |(num : ℚ) / den - magnitude (nearestRank (num * scale) den)| ≤ |(num : ℚ) / den - magnitude rank| := by
  rcases Nat.lt_trichotomy (nearestRank (num * scale) den) rank with h | rfl | h
  · rw [abs_sub_low_le_iff (magnitude_strictMono h), two_mul_le_iff hd]
    exact (nearest_of_nearestRank_lt hd h).1
  · exact le_refl _
  · rw [abs_sub_high_le_iff (magnitude_strictMono h), le_two_mul_iff hd]
    exact (nearest_of_lt_nearestRank hd h).1

theorem nearestRank_even_of_tie (hd : 0 < den) {rank : Nat} (hne : rank ≠ nearestRank (num * scale) den)
    (h : |(num : ℚ) / den - magnitude rank| ≤
      |(num : ℚ) / den - magnitude (nearestRank (num * scale) den)|) :
    nearestRank (num * scale) den % 2 = 0 := by
  rcases Nat.lt_or_gt_of_ne hne with hlt | hgt
  · rw [abs_sub_low_le_iff (magnitude_strictMono hlt), two_mul_le_iff hd] at h
    obtain ⟨hle, heven⟩ := nearest_of_lt_nearestRank hd hlt
    exact heven (le_antisymm hle h)
  · rw [abs_sub_high_le_iff (magnitude_strictMono hgt), le_two_mul_iff hd] at h
    obtain ⟨hle, heven⟩ := nearest_of_nearestRank_lt hd hgt
    exact heven (le_antisymm hle h)

theorem exists_magnitude_nearer {m : ℚ} (hm : 0 ≤ m) (negative : Bool) (y : Binary64) :
    ∃ rank, |m - magnitude rank| ≤ |signFactor negative * m - y.value| ∧
      (|m - magnitude rank| = |signFactor negative * m - y.value| →
        y.value = signFactor negative * magnitude rank) := by
  by_cases hs : y.negative = negative
  · subst hs
    rw [value_eq, abs_signFactor_mul_sub]
    exact ⟨y.rank, le_refl _, fun _ => rfl⟩
  · -- across zero nothing is nearer than zero
    have hy := magnitude_nonneg y.rank
    have hvalue : y.value = signFactor negative * -magnitude y.rank := by
      rw [value_eq]
      revert hs
      cases y.negative <;> cases negative <;> simp [signFactor]
    refine ⟨0, ?_, ?_⟩
    all_goals rw [hvalue, abs_signFactor_mul_sub, magnitude_zero, sub_zero, sub_neg_eq_add,
      abs_of_nonneg hm, abs_of_nonneg (by positivity)]
    · linarith
    · intro h
      rw [show magnitude y.rank = 0 by linarith, neg_zero]

theorem ofRatio_rank (negative : Bool) (num den : Nat) :
    (ofRatio negative num den).rank = min (nearestRank (num * scale) den) infinityRank := by
  unfold scale
  rfl

theorem ofRatio_rank_eq_zero_iff (negative : Bool) (num : Nat) (hd : 0 < den) :
    (ofRatio negative num den).rank = 0 ↔ (num : ℚ) / den ≤ 1 / 2 ^ 1075 := by
  have hpass : Passes (num * scale) den 0 ↔ ¬2 * (num * scale) ≤ (units 0 + units 1) * den := by
    unfold Passes
    rw [Nat.zero_add]
    omega
  have hhalf (n : Nat) : (1 / 2 ^ n : ℚ) = 2 * (1 / 2 ^ (n + 1)) := by
    rw [pow_succ]
    field_simp
  have hrank : (ofRatio negative num den).rank = 0 ↔ ¬0 < nearestRank (num * scale) den := by
    have hpos : 0 < infinityRank := by decide
    rw [ofRatio_rank]
    omega
  rw [hrank, lt_nearestRank_iff hd, hpass, not_not, ← two_mul_le_iff hd, magnitude_zero, zero_add,
    magnitude_least, hhalf, mul_le_mul_iff_right₀ two_pos]

theorem ofRatio_infinite_iff (negative : Bool) (num : Nat) (hd : 0 < den) :
    (ofRatio negative num den).isFinite = false ↔ (2 ^ 1024 - 2 ^ 970 : ℚ) ≤ num / den := by
  have hlast : infinityRank - 1 + 1 = infinityRank := by decide
  have hpass : Passes (num * scale) den (infinityRank - 1) ↔
      (units (infinityRank - 1) + units infinityRank) * den ≤ 2 * (num * scale) := by
    have hodd : (infinityRank - 1) % 2 = 1 := by decide
    unfold Passes
    rw [hlast]
    omega
  have hmiddle (a b : Nat) : (2 ^ a - 2 ^ (b + 1) + 2 ^ a : ℚ) = 2 * (2 ^ a - 2 ^ b) := by
    rw [pow_succ]
    ring
  have hrank : (ofRatio negative num den).isFinite = false ↔
      infinityRank - 1 < nearestRank (num * scale) den := by
    rw [isFinite, decide_eq_false_iff_not, ofRatio_rank]
    omega
  rw [hrank, lt_nearestRank_iff hd, hpass, ← le_two_mul_iff hd, magnitude_last, magnitude_infinityRank,
    hmiddle, mul_le_mul_iff_right₀ two_pos]

/-- **A quotient is rounded correctly.** -/
theorem rounds_ofRatio (negative : Bool) (num : Nat) (hd : 0 < den) :
    (ofRatio negative num den).Rounds (signFactor negative * (num / den)) := by
  have hm : (0 : ℚ) ≤ num / den := by positivity
  have hrank (hfin : (ofRatio negative num den).isFinite) :
      (ofRatio negative num den).rank = nearestRank (num * scale) den := by
    rw [isFinite, decide_eq_true_eq, ofRatio_rank] at hfin
    rw [ofRatio_rank]
    omega
  have hvalue (hfin : (ofRatio negative num den).isFinite) : (ofRatio negative num den).value =
      signFactor negative * magnitude (nearestRank (num * scale) den) := by
    rw [value_eq, hrank hfin]
    rfl
  refine ⟨?_, ?_, ?_, ?_⟩
  · intro hne
    change negative = true ↔ _
    have hpos : (0 : ℚ) < num / den := lt_of_le_of_ne hm fun h => hne (by rw [← h, mul_zero])
    cases negative <;> simp only [signFactor, Bool.false_eq_true, if_true, if_false]
    · simp [hm]
    · simp [hpos]
  · rw [abs_signFactor_mul, abs_of_nonneg hm]
    exact ofRatio_infinite_iff negative num hd
  · intro hfin y _
    obtain ⟨rank, hnear, -⟩ := exists_magnitude_nearer hm negative y
    rw [hvalue hfin, abs_signFactor_mul_sub]
    exact (abs_sub_magnitude_le hd rank).trans hnear
  · intro hfin y _ hne htie
    obtain ⟨rank, hnear, hsame⟩ := exists_magnitude_nearer hm negative y
    rw [hvalue hfin, abs_signFactor_mul_sub] at htie
    have hrank_ne : rank ≠ nearestRank (num * scale) den := by
      rintro rfl
      rw [hvalue hfin] at hne
      exact hne (hsame htie.symm)
    rw [significand_mod_two, hrank hfin]
    exact nearestRank_even_of_tie hd hrank_ne (hnear.trans htie.le)

end

/-! ## There is one correct rounding -/

theorem overflow_pos : (0 : ℚ) < 2 ^ 1024 - 2 ^ 970 :=
  sub_pos.mpr (pow_lt_pow_right₀ one_lt_two (by decide))

section
variable {q q' : ℚ} {x y : Binary64}

theorem Rounds.rank_not_lt (hx : Rounds q x) (hy : Rounds q y) (hs : x.negative = y.negative)
    (hxfin : x.isFinite) (hyfin : y.isFinite) : ¬x.rank < y.rank := by
  intro hlt
  have hne : y.value ≠ x.value := fun h => hlt.ne (rank_eq_of_value_eq hs h.symm)
  have htie : |q - y.value| = |q - x.value| :=
    le_antisymm (hy.nearest hyfin x hxfin) (hx.nearest hxfin y hyfin)
  have hxeven := hx.even hxfin y hyfin hne htie
  have hyeven := hy.even hyfin x hxfin hne.symm htie.symm
  rw [significand_mod_two] at hxeven hyeven
  have hyrank := isFinite_iff.mp hyfin
  have hzrank : x.rank + 1 < infinityRank := by omega
  obtain ⟨z, hznegative, hz⟩ : ∃ z : Binary64, z.negative = y.negative ∧ z.rank = x.rank + 1 :=
    ⟨⟨y.negative, x.rank + 1, hzrank.le⟩, rfl, rfl⟩
  have hzfin : z.isFinite := isFinite_iff.mpr (hz ▸ hzrank)
  have hxz := hx.nearest hxfin z hzfin
  have hyz := hy.nearest hyfin z hzfin
  rw [value_eq, value_eq z, hznegative, hs, abs_sub_signFactor_mul, abs_sub_signFactor_mul,
    abs_sub_low_le_iff (magnitude_strictMono (by omega))] at hxz
  rw [value_eq, value_eq z, hznegative, abs_sub_signFactor_mul, abs_sub_signFactor_mul,
    abs_sub_high_le_iff (magnitude_strictMono (by omega))] at hyz
  have hxy := magnitude_strictMono hlt
  linarith

theorem Rounds.unique (hx : Rounds q x) (hy : Rounds q y) (hs : x.negative = y.negative) : x = y := by
  apply ext_of_rank hs
  by_cases hxfin : x.isFinite
  · have hyfin : y.isFinite := by
      by_contra h
      rw [Bool.not_eq_true, hy.infinite_iff, ← hx.infinite_iff, hxfin] at h
      cases h
    have hnlt := hx.rank_not_lt hy hs hxfin hyfin
    have hngt := hy.rank_not_lt hx hs.symm hyfin hxfin
    omega
  · rw [Bool.not_eq_true] at hxfin
    have hyfin := hy.infinite_iff.mpr (hx.infinite_iff.mp hxfin)
    rw [rank_of_infinite hxfin, rank_of_infinite hyfin]

theorem Rounds.value_eq_zero (hx : Rounds 0 x) : x.isFinite ∧ x.value = 0 := by
  have hfin : x.isFinite := by
    by_contra h
    rw [Bool.not_eq_true, hx.infinite_iff, abs_zero] at h
    exact absurd overflow_pos h.not_gt
  have hzero : (zero false).value = 0 := by
    rw [value_eq, zero, magnitude_zero, mul_zero]
  have hnear := hx.nearest hfin (zero false) rfl
  rw [hzero, sub_zero, abs_zero, zero_sub, abs_neg] at hnear
  exact ⟨hfin, abs_eq_zero.mp (le_antisymm hnear (abs_nonneg _))⟩

theorem Rounds.value_le (hx : Rounds q x) (hy : Rounds q' y) (h : q < q') (hxfin : x.isFinite)
    (hyfin : y.isFinite) : x.value ≤ y.value := by
  by_contra hlt
  rw [not_le] at hlt
  have hqx := (abs_sub_high_le_iff hlt).mp (hx.nearest hxfin y hyfin)
  have hqy := (abs_sub_low_le_iff hlt).mp (hy.nearest hyfin x hxfin)
  linarith

theorem extended_of_finite (h : x.isFinite) :
    x.extended = ((x.value : WithTop ℚ) : WithBot (WithTop ℚ)) :=
  if_pos h

theorem extended_of_infinite (h : x.isFinite = false) : x.extended = if x.negative then ⊥ else ⊤ := by
  simp [extended, h]

theorem Rounds.eq_top (hx : Rounds q x) (h : 2 ^ 1024 - 2 ^ 970 ≤ q) : x.extended = ⊤ := by
  have hq : 0 < q := lt_of_lt_of_le overflow_pos h
  have hnegative : ¬x.negative = true := fun hn => ((hx.negative_iff hq.ne').mp hn).not_gt hq
  rw [extended_of_infinite (hx.infinite_iff.mpr (h.trans (le_abs_self q))), if_neg hnegative]

theorem Rounds.eq_bot (hx : Rounds q x) (h : 2 ^ 1024 - 2 ^ 970 ≤ -q) : x.extended = ⊥ := by
  have hq : q < 0 := neg_pos.mp (lt_of_lt_of_le overflow_pos h)
  have hnegative : x.negative = true := (hx.negative_iff hq.ne).mpr hq
  rw [extended_of_infinite (hx.infinite_iff.mpr (h.trans (neg_le_abs q))), if_pos hnegative]

/-- **Correct rounding is monotone.** -/
theorem Rounds.extended_le (hx : Rounds q x) (hy : Rounds q' y) (h : q ≤ q') :
    x.extended ≤ y.extended := by
  rcases h.eq_or_lt with rfl | hlt
  · by_cases hq : q = 0
    · -- the two zeros differ, and stand for one number
      subst hq
      rw [extended_of_finite hx.value_eq_zero.1, extended_of_finite hy.value_eq_zero.1,
        hx.value_eq_zero.2, hy.value_eq_zero.2]
    · have hs : x.negative = y.negative := by
        rw [Bool.eq_iff_iff, hx.negative_iff hq, hy.negative_iff hq]
      rw [hx.unique hy hs]
  by_cases hxfin : x.isFinite
  · by_cases hyfin : y.isFinite
    · rw [extended_of_finite hxfin, extended_of_finite hyfin, WithBot.coe_le_coe, WithTop.coe_le_coe]
      exact hx.value_le hy hlt hxfin hyfin
    · rw [Bool.not_eq_true, hy.infinite_iff, le_abs] at hyfin
      rcases hyfin with hhigh | hlow
      · rw [hy.eq_top hhigh]
        exact le_top
      · rw [hx.eq_bot (hlow.trans (neg_le_neg h))]
        exact bot_le
  · rw [Bool.not_eq_true, hx.infinite_iff, le_abs] at hxfin
    rcases hxfin with hhigh | hlow
    · rw [hy.eq_top (hhigh.trans h)]
      exact le_top
    · rw [hx.eq_bot hlow]
      exact bot_le

end

end MathTokens.Binary64
