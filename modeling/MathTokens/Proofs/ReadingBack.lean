import MathTokens.Binary64.Shortest

/-!
# Decimals that read back

Rounding looks at a quotient only through its value, and gives every rank back from its own magnitude.
The decimal that the search finds for a rank is one that rounds to it, on whatever grid it is found.
-/

namespace MathTokens.Binary64

/-! ## Rounding a quotient -/

section
variable {num den num' den' : Nat}

theorem roundHalfEven_scale (num den : Nat) {k : Nat} (hk : 0 < k) :
    roundHalfEven (num * k) (den * k) = roundHalfEven num den := by
  unfold roundHalfEven
  have hdouble : 2 * (num % den * k) = 2 * (num % den) * k := (Nat.mul_assoc ..).symm
  simp only [Nat.mul_div_mul_right _ _ hk, Nat.mul_mod_mul_right, hdouble, Nat.mul_lt_mul_right hk,
    Nat.mul_left_inj (Nat.ne_of_gt hk)]

theorem nearestRank_scale (num den : Nat) {k : Nat} (hk : 0 < k) :
    nearestRank (num * k) (den * k) = nearestRank num den := by
  unfold nearestRank
  simp only [Nat.mul_div_mul_right _ _ hk, Nat.mul_right_comm den k, roundHalfEven_scale _ _ hk]

theorem nearestRank_congr (hd : 0 < den) (hd' : 0 < den') (h : num * den' = num' * den) :
    nearestRank num den = nearestRank num' den' := by
  rw [← nearestRank_scale num den hd', h, Nat.mul_comm den, nearestRank_scale num' den' hd]

theorem roundHalfEven_mul (n : Nat) (hd : 0 < den) : roundHalfEven (n * den) den = n := by
  unfold roundHalfEven
  simp [Nat.mul_div_cancel n hd, hd]

end

theorem nearestRank_zero {den : Nat} (hd : 0 < den) : nearestRank 0 den = 0 := by
  unfold nearestRank roundHalfEven
  simp [hd]

theorem nearestRank_units (rank : Nat) {den : Nat} (hd : 0 < den) :
    nearestRank (units rank * den) den = rank := by
  unfold nearestRank
  simp only [Nat.mul_div_cancel _ hd, Nat.pow_eq]
  unfold units
  simp only [Nat.pow_eq]
  by_cases h : rank < 2 ^ 52
  · have he : rank.log2 - 52 = 0 := by
      by_cases hz : rank = 0
      · rw [hz]; rfl
      · have := (Nat.log2_lt hz).mpr h
        omega
    rw [if_pos h, he, Nat.pow_zero, Nat.mul_one, Nat.zero_mul, Nat.zero_add, roundHalfEven_mul rank hd]
  · -- the exponent of the binade is one less than the quotient
    obtain ⟨e, he⟩ : ∃ e, rank / 2 ^ 52 = e + 1 := ⟨rank / 2 ^ 52 - 1, by omega⟩
    have hrank := Nat.div_add_mod rank (2 ^ 52)
    have hr := Nat.mod_lt rank (Nat.two_pow_pos 52)
    generalize rank % 2 ^ 52 = r at hrank hr ⊢
    rw [he] at hrank
    have hlog : ((2 ^ 52 + r) * 2 ^ e).log2 = 52 + e := by
      have hne : (2 ^ 52 + r) * 2 ^ e ≠ 0 :=
        Nat.ne_of_gt (Nat.mul_pos (by omega) (Nat.two_pow_pos e))
      rw [Nat.log2_eq_iff hne, Nat.pow_add, Nat.add_right_comm, Nat.pow_add]
      constructor
      · exact Nat.mul_le_mul_right _ (by omega)
      · exact Nat.mul_lt_mul_of_pos_right (by omega) (Nat.two_pow_pos e)
    rw [if_neg h, he, Nat.add_sub_cancel, hlog, Nat.add_sub_cancel_left, Nat.mul_assoc,
      Nat.mul_comm (2 ^ e) den, roundHalfEven_mul _ (Nat.mul_pos hd (Nat.two_pow_pos e))]
    omega

/-! ## The decimal that is found -/

section
variable {unit rank m j : Nat}

theorem readsBack_iff :
    readsBack unit rank m j = true ↔ nearestRank (m * Nat.pow 10 j) unit = rank := by
  unfold readsBack
  exact beq_iff_eq

theorem ne_zero_of_readsBack (hu : 0 < unit) (h : readsBack unit rank m j = true) (hr : rank ≠ 0) :
    m ≠ 0 := by
  intro hm
  rw [readsBack_iff, hm, Nat.zero_mul, nearestRank_zero hu] at h
  exact hr h.symm

theorem readsBack_of_gridPoint? (h : gridPoint? unit rank j = some m) :
    readsBack unit rank m j = true := by
  unfold gridPoint? at h
  have hfound := List.find?_some h
  exact hfound

theorem readsBack_searchGrids (hu : 0 < unit) (rank n : Nat) :
    readsBack unit rank (searchGrids unit rank n).1 (searchGrids unit rank n).2 = true := by
  induction n with
  | zero =>
    unfold searchGrids
    rw [readsBack_iff, Nat.pow_eq, Nat.pow_zero, Nat.mul_one]
    exact nearestRank_units rank hu
  | succ n ih =>
    unfold searchGrids
    cases h : gridPoint? unit rank (n + 1) with
    | none => exact ih
    | some m => exact readsBack_of_gridPoint? h

end

theorem decimalUnit_pos : 0 < decimalUnit := by
  have pos (n : Nat) : 0 < Nat.pow 5 n := Nat.pow_pos (by decide)
  unfold decimalUnit
  apply pos

theorem readsBack_shortest (rank : Nat) : ∃ j : Nat, (shortest rank).2 = (j : Int) - 1074 ∧
    readsBack decimalUnit rank (shortest rank).1 j = true := by
  obtain ⟨n, hn⟩ : ∃ n, shortest rank =
      ((searchGrids decimalUnit rank n).1, ((searchGrids decimalUnit rank n).2 : Int) - 1074) :=
    ⟨_, by rw [shortest]⟩
  rw [hn]
  exact ⟨_, rfl, readsBack_searchGrids decimalUnit_pos rank n⟩

end MathTokens.Binary64
