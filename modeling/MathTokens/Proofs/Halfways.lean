import Mathlib.Tactic.Linarith
import Mathlib.Tactic.Ring
import MathTokens.Binary64.Rounding

/-!
# Halfway points

The ranks of a binade stand on a grid: their magnitudes are the whole numbers of one spacing. Rounding
goes past a rank exactly if the quotient lies past the point half-way to the next rank, or on that point
and the rank is odd.
-/

namespace MathTokens.Binary64

/-! ## Grids of ranks -/

theorem units_grid {e k : Nat} (h : e = 0 ∨ 2 ^ 52 ≤ k) (hk : k ≤ 2 ^ 53) :
    units (e * 2 ^ 52 + k) = k * 2 ^ e := by
  unfold units
  simp only [Nat.pow_eq]
  by_cases hlow : k < 2 ^ 52
  · obtain rfl : e = 0 := by omega
    rw [if_pos (by omega)]
    simp
  rw [if_neg (by omega)]
  by_cases htop : k = 2 ^ 53
  · -- the end of one binade is the start of the next
    have hdiv : (e * 2 ^ 52 + k) / 2 ^ 52 = e + 2 := by omega
    have hmod : (e * 2 ^ 52 + k) % 2 ^ 52 = 0 := by omega
    rw [hdiv, hmod, htop, Nat.add_zero, Nat.add_sub_assoc (by decide)]
    ring
  · have hdiv : (e * 2 ^ 52 + k) / 2 ^ 52 = e + 1 := by omega
    have hmod : (e * 2 ^ 52 + k) % 2 ^ 52 = k - 2 ^ 52 := by omega
    rw [hdiv, hmod, Nat.add_sub_cancel, Nat.add_sub_cancel' (by omega)]

theorem exists_grid (rank : Nat) : ∃ e k, rank = e * 2 ^ 52 + k ∧ (e = 0 ∨ 2 ^ 52 ≤ k) ∧ k < 2 ^ 53 := by
  by_cases h : rank < 2 ^ 52
  · exact ⟨0, rank, by omega, .inl rfl, by omega⟩
  · exact ⟨rank / 2 ^ 52 - 1, 2 ^ 52 + rank % 2 ^ 52, by omega, .inr (by omega), by omega⟩

theorem units_lt_units_succ (rank : Nat) : units rank < units (rank + 1) := by
  obtain ⟨e, k, rfl, he, hk⟩ := exists_grid rank
  rw [Nat.add_assoc, units_grid he (by omega), units_grid (by omega) (by omega)]
  exact Nat.mul_lt_mul_of_pos_right (Nat.lt_succ_self k) (Nat.two_pow_pos e)

theorem units_strictMono : StrictMono units :=
  strictMono_nat_of_lt_succ units_lt_units_succ

/-! ## Rounding on a grid -/

theorem roundHalfEven_spec (num : Nat) {den : Nat} (hd : 0 < den) :
    let k := roundHalfEven num den
    2 * num ≤ (2 * k + 1) * den ∧ 2 * k * den ≤ 2 * num + den ∧
      (2 * num = (2 * k + 1) * den ∨ 2 * k * den = 2 * num + den → k % 2 = 0) := by
  have hnum := Nat.div_add_mod num den
  have hr := Nat.mod_lt num hd
  have hexpand (k : Nat) : (2 * k + 1) * den = 2 * (den * k) + den ∧ 2 * k * den = 2 * (den * k) := by
    constructor <;> ring
  unfold roundHalfEven
  dsimp only
  generalize num / den = quotient at hnum ⊢
  generalize num % den = remainder at hnum hr ⊢
  by_cases h : 2 * remainder < den ∨ 2 * remainder = den ∧ quotient % 2 = 0
  · rw [if_pos h, (hexpand quotient).1, (hexpand quotient).2]
    omega
  · rw [if_neg h, (hexpand (quotient + 1)).1, (hexpand (quotient + 1)).2, Nat.mul_add]
    omega

/-- The quotient `num / den` lies in the binade where ranks are `2 ^ e` units apart, and `k` of these
spacings are what it is rounded to. -/
structure OnGrid (num den e k : Nat) : Prop where
  normal : e = 0 ∨ 2 ^ 52 ≤ k
  le_top : k ≤ 2 ^ 53
  num_lt : num < 2 ^ 53 * (den * 2 ^ e)
  le_num : e = 0 ∨ 2 ^ 52 * (den * 2 ^ e) ≤ num
  above : 2 * num ≤ (2 * k + 1) * (den * 2 ^ e)
  below : 2 * k * (den * 2 ^ e) ≤ 2 * num + den * 2 ^ e
  even : 2 * num = (2 * k + 1) * (den * 2 ^ e) ∨ 2 * k * (den * 2 ^ e) = 2 * num + den * 2 ^ e →
    k % 2 = 0

section
variable {num den : Nat}

theorem exists_onGrid (num : Nat) (hd : 0 < den) :
    ∃ e k, nearestRank num den = e * 2 ^ 52 + k ∧ OnGrid num den e k := by
  obtain ⟨e, he⟩ : ∃ e, (num / den).log2 - 52 = e := ⟨_, rfl⟩
  have hpos : 0 < den * 2 ^ e := Nat.mul_pos hd (Nat.two_pow_pos e)
  have hlt : num < 2 ^ 53 * (den * 2 ^ e) := by
    have hlog : num / den < 2 ^ (53 + e) :=
      Nat.lt_of_lt_of_le Nat.lt_log2_self (Nat.pow_le_pow_right (by decide) (by omega))
    have hmul := (Nat.div_lt_iff_lt_mul hd).mp hlog
    rw [Nat.pow_add] at hmul
    linarith
  have hle : e = 0 ∨ 2 ^ 52 * (den * 2 ^ e) ≤ num := by
    by_cases hzero : e = 0
    · exact .inl hzero
    · have hlog : 2 ^ (52 + e) ≤ num / den := by
        rw [show 52 + e = (num / den).log2 by omega]
        apply Nat.log2_self_le
        intro hq
        rw [hq] at he
        exact hzero he.symm
      have hmul := (Nat.le_div_iff_mul_le hd).mp hlog
      rw [Nat.pow_add] at hmul
      right
      linarith
  obtain ⟨habove, hbelow, heven⟩ := roundHalfEven_spec num hpos
  refine ⟨e, roundHalfEven num (den * 2 ^ e), ?_, ?_, ?_, hlt, hle, habove, hbelow, heven⟩
  · rw [← he]
    rfl
  · exact hle.imp_right fun h => by nlinarith
  · nlinarith

/-- The quotient lies past the point half-way from a rank to the next, or on it and the rank is odd. -/
def Passes (num den rank : Nat) : Prop :=
  (units rank + units (rank + 1)) * den < 2 * num ∨
    (units rank + units (rank + 1)) * den = 2 * num ∧ rank % 2 = 1

theorem Passes.of_lt {a b : Nat} (hd : 0 < den) (h : Passes num den b) (hab : a < b) :
    Passes num den a := by
  have hsum : units a + units (a + 1) < units b + units (b + 1) :=
    Nat.add_lt_add (units_strictMono hab) (units_strictMono (Nat.succ_lt_succ hab))
  have hlt := Nat.mul_lt_mul_of_pos_right hsum hd
  rcases h with h | ⟨h, -⟩
  · exact .inl (Nat.lt_trans hlt h)
  · exact .inl (h ▸ hlt)

section
variable {e k : Nat}

theorem OnGrid.units_mul (h : OnGrid num den e k) :
    units (e * 2 ^ 52 + k) * den = k * (den * 2 ^ e) := by
  rw [units_grid h.normal h.le_top]
  ring

theorem OnGrid.not_passes (h : OnGrid num den e k) (hd : 0 < den) :
    ¬Passes num den (e * 2 ^ 52 + k) := by
  have hat := h.units_mul
  have habove := h.above
  unfold Passes
  rw [Nat.add_mul, hat]
  by_cases htop : k = 2 ^ 53
  · -- the quotient lies below the end of the binade
    have hnext := Nat.mul_lt_mul_of_pos_right (units_lt_units_succ (e * 2 ^ 52 + k)) hd
    have hnum := h.num_lt
    rw [hat] at hnext
    rw [htop] at hnext ⊢
    omega
  · have hnormal := h.normal
    have hle := h.le_top
    have hnext : units (e * 2 ^ 52 + k + 1) * den = (k + 1) * (den * 2 ^ e) := by
      rw [Nat.add_assoc, units_grid (by omega) (by omega)]
      ring
    have hsum : k * (den * 2 ^ e) + (k + 1) * (den * 2 ^ e) = (2 * k + 1) * (den * 2 ^ e) := by ring
    rw [hnext, hsum]
    rintro (hlt | ⟨heq, hodd⟩)
    · omega
    · have heven := h.even (.inl heq.symm)
      omega

theorem OnGrid.passes {rank : Nat} (h : OnGrid num den e k) (hd : 0 < den)
    (hrank : rank + 1 = e * 2 ^ 52 + k) : Passes num den rank := by
  have hat := h.units_mul
  have hbelow := h.below
  unfold Passes
  rw [Nat.add_mul, hrank, hat]
  by_cases hlow : e ≠ 0 ∧ k = 2 ^ 52
  · -- the quotient does not lie below the start of the binade
    have hprev := Nat.mul_lt_mul_of_pos_right (units_lt_units_succ rank) hd
    have hnum := h.le_num.resolve_left hlow.1
    rw [hrank, hat] at hprev
    rw [hlow.2] at hprev ⊢
    omega
  · have hnormal := h.normal
    have hle := h.le_top
    obtain ⟨m, rfl⟩ : ∃ m, k = m + 1 := ⟨k - 1, by omega⟩
    obtain rfl : rank = e * 2 ^ 52 + m := by omega
    have hprev : units (e * 2 ^ 52 + m) * den = m * (den * 2 ^ e) := by
      rw [units_grid (by omega) (by omega)]
      ring
    have hsum : m * (den * 2 ^ e) + (m + 1) * (den * 2 ^ e) + den * 2 ^ e =
        2 * (m + 1) * (den * 2 ^ e) := by ring
    rw [hprev]
    rcases Nat.lt_or_ge (m * (den * 2 ^ e) + (m + 1) * (den * 2 ^ e)) (2 * num) with hlt | hge
    · exact .inl hlt
    · have heven := h.even (.inr (by omega))
      exact .inr ⟨by omega, by omega⟩

end

/-- **Rounding changes at the halfway points.** -/
theorem lt_nearestRank_iff {rank : Nat} (hd : 0 < den) :
    rank < nearestRank num den ↔ Passes num den rank := by
  obtain ⟨e, k, heq, hgrid⟩ := exists_onGrid num hd
  rw [heq]
  constructor
  · intro h
    obtain ⟨last, hlast⟩ : ∃ last, last + 1 = e * 2 ^ 52 + k := ⟨e * 2 ^ 52 + k - 1, by omega⟩
    have hpasses := hgrid.passes hd hlast
    rcases Nat.eq_or_lt_of_le (Nat.le_of_lt_succ (hlast ▸ h)) with rfl | hlt
    · exact hpasses
    · exact hpasses.of_lt hd hlt
  · intro h
    rcases Nat.lt_trichotomy rank (e * 2 ^ 52 + k) with hlt | rfl | hgt
    · exact hlt
    · exact absurd h (hgrid.not_passes hd)
    · exact absurd (h.of_lt hd hgt) (hgrid.not_passes hd)

/-- The quotient is as near to its rank as to any higher one, and as near to a higher one only if the
rank is even. -/
theorem nearest_of_nearestRank_lt {rank : Nat} (hd : 0 < den) (h : nearestRank num den < rank) :
    2 * num ≤ (units (nearestRank num den) + units rank) * den ∧
      (2 * num = (units (nearestRank num den) + units rank) * den → nearestRank num den % 2 = 0) := by
  have hstay : ¬Passes num den (nearestRank num den) := fun hp =>
    absurd ((lt_nearestRank_iff hd).mpr hp) (Nat.lt_irrefl _)
  generalize nearestRank num den = near at h hstay ⊢
  have hnext : (units near + units (near + 1)) * den ≤ (units near + units rank) * den :=
    Nat.mul_le_mul_right _ (Nat.add_le_add_left (units_strictMono.monotone h) _)
  simp only [Passes, not_or, not_and] at hstay
  exact ⟨by omega, fun heq => by omega⟩

/-- The quotient is as near to its rank as to any lower one, and as near to a lower one only if the
rank is even. -/
theorem nearest_of_lt_nearestRank {rank : Nat} (hd : 0 < den) (h : rank < nearestRank num den) :
    (units rank + units (nearestRank num den)) * den ≤ 2 * num ∧
      ((units rank + units (nearestRank num den)) * den = 2 * num → nearestRank num den % 2 = 0) := by
  obtain ⟨last, hlast⟩ : ∃ last, nearestRank num den = last + 1 := ⟨nearestRank num den - 1, by omega⟩
  have hpass : Passes num den last := (lt_nearestRank_iff hd).mp (by omega)
  rw [hlast] at h ⊢
  have hprev : (units rank + units (last + 1)) * den ≤ (units last + units (last + 1)) * den :=
    Nat.mul_le_mul_right _ (Nat.add_le_add_right (units_strictMono.monotone (by omega)) _)
  unfold Passes at hpass
  exact ⟨by omega, fun heq => by omega⟩

end

end MathTokens.Binary64
