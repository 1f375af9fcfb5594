import MathTokens.Binary64.Printer
import MathTokens.Proofs.Codes
import MathTokens.Proofs.Decimals
import MathTokens.Proofs.ReadingBack

/-!
# Written numbers

`Shows x t` says that the text `t` shows the double `x`, its sign left out. A finite double is shown
by a decimal that reads back, or by digits and an exponent; whole numbers have no zero in front. No
two doubles are written alike.
-/

namespace MathTokens

/-- Digits without a zero in front of others. -/
inductive IsWhole : Text → Prop
  | zero : IsWhole ['0']
  | lead {c t} : c.isDigit → c ≠ '0' → Digits t → IsWhole (c :: t)

theorem IsWhole.digits {t : Text} (h : IsWhole t) : Digits t := by
  cases h with
  | zero => simp [Digits]
  | lead hc _ ht => exact List.forall_mem_cons.mpr ⟨hc, ht⟩

theorem Digits.append {a b : Text} (ha : Digits a) (hb : Digits b) : Digits (a ++ b) :=
  List.forall_mem_append.mpr ⟨ha, hb⟩

theorem digits_zeros (n : Nat) : Digits (List.replicate n '0') := by
  intro c hc
  rw [List.eq_of_mem_replicate hc]
  rfl

theorem isWhole_ofNat (n : Nat) : IsWhole (Text.ofNat n) := by
  by_cases hn : n = 0
  · subst hn
    exact .zero
  · have hd := Text.isDigit_of_mem_ofNat (n := n)
    obtain ⟨c, t, ht, hc⟩ := Text.ofNat_lead hn
    rw [ht] at hd ⊢
    exact .lead (hd c (by simp)) hc fun d hdt => hd d (by simp [hdt])

/-! ## Values of digits -/

namespace Decimal

theorem ofDigits_eq (t : Text) : ofDigits t = Nat.ofDigitChars 10 t 0 :=
  Nat.ofDigitChars_eq_foldl.symm

theorem ofDigits_ofNat (n : Nat) : ofDigits (Text.ofNat n) = n := by
  rw [ofDigits_eq]
  exact Nat.ofDigitChars_ten_toDigits

theorem ofDigits_zeros_append (n : Nat) (t : Text) :
    ofDigits (List.replicate n '0' ++ t) = ofDigits t := by
  rw [ofDigits_eq, ofDigits_eq, Nat.ofDigitChars_append, Nat.ofDigitChars_replicate_zero, Nat.mul_zero]

theorem ofDigits_append_zeros (t : Text) (n : Nat) :
    ofDigits (t ++ List.replicate n '0') = ofDigits t * Nat.pow 10 n := by
  rw [ofDigits_eq, ofDigits_eq, Nat.ofDigitChars_append, Nat.ofDigitChars_replicate_zero, Nat.mul_comm,
    Nat.pow_eq]

/-- A decimal of the value that reads back is the double. -/
theorem toBinary64_of_readsBack {d : Decimal} {x : Binary64} {m j k : Nat}
    (h : Binary64.readsBack Binary64.decimalUnit x.rank m j = true) (hn : d.negative = x.negative)
    (hk : k = 1074) (hd : d.coefficient * Nat.pow 10 k = m * Nat.pow 10 j * Nat.pow 10 d.places) :
    d.toBinary64 = x := by
  -- `k` stays a variable: with the number in its place the powers would be computed
  have hscale (k : Nat) :
      d.coefficient * Nat.pow 2 k * Nat.pow 5 k = d.coefficient * Nat.pow 10 k := by
    simp only [Nat.pow_eq]
    rw [Nat.mul_assoc, ← Nat.mul_pow]
  have hrank :
      Binary64.nearestRank (d.coefficient * Nat.pow 2 1074) (Nat.pow 10 d.places) = x.rank := by
    rw [← Binary64.readsBack_iff.mp h]
    apply Binary64.nearestRank_congr _ Binary64.decimalUnit_pos
    · unfold Binary64.decimalUnit
      rw [← hk, hscale, hd, Nat.pow_eq, Nat.pow_eq]
    · exact Nat.pow_pos (by decide)
  unfold toBinary64 Binary64.ofRatio
  rw [hn]
  simp only [hrank, Nat.min_eq_left x.rank_le]

end Decimal

namespace Binary64

/-! ## Layouts -/

section
variable {digits : Text} {e : Int}

theorem positional_eq (hd : Digits digits) (hlead : ∃ c t, digits = c :: t ∧ c ≠ '0') {j k : Nat}
    (he : e = (j : Int) - k + digits.length - 1) : ∃ whole fraction,
      positional digits e = whole ++ '.' :: fraction ∧ IsWhole whole ∧ Digits fraction ∧
        fraction ≠ [] ∧ Decimal.ofDigits (whole ++ fraction) * Nat.pow 10 k =
          Decimal.ofDigits digits * Nat.pow 10 j * Nat.pow 10 fraction.length := by
  obtain ⟨c, t, ht, hc⟩ := hlead
  have hlength : digits.length = t.length + 1 := by rw [ht, List.length_cons]
  have hcd : c.isDigit := hd c (by simp [ht])
  unfold positional
  simp only [Nat.pow_eq]
  by_cases hneg : e < 0
  · -- zeros stand between the point and the digits
    obtain ⟨n, hn⟩ : ∃ n : Nat, (-e - 1).toNat = n := ⟨_, rfl⟩
    have hk : k = j + (n + digits.length) := by omega
    rw [if_pos hneg, hn]
    refine ⟨['0'], List.replicate n '0' ++ digits, rfl, .zero, (digits_zeros n).append hd, ?_, ?_⟩
    · simp [ht]
    have hvalue : Decimal.ofDigits (['0'] ++ (List.replicate n '0' ++ digits)) =
        Decimal.ofDigits digits := by
      rw [← List.append_assoc, List.singleton_append, ← List.replicate_succ,
        Decimal.ofDigits_zeros_append]
    rw [hvalue, hk, List.length_append, List.length_replicate, Nat.pow_add, ← Nat.mul_assoc]
  · rw [if_neg hneg]
    by_cases hle : digits.length ≤ e.toNat + 1
    · -- zeros stand between the digits and the point
      obtain ⟨n, hn⟩ : ∃ n : Nat, e.toNat + 1 - digits.length = n := ⟨_, rfl⟩
      have hj : j = n + k := by omega
      rw [if_pos hle, hn]
      refine ⟨digits ++ List.replicate n '0', ['0'], rfl, ?_, digits_zeros 1, by simp, ?_⟩
      · rw [ht, List.cons_append]
        exact .lead hcd hc (Digits.append (fun d hdt => hd d (by simp [ht, hdt])) (digits_zeros n))
      · have hvalue : Decimal.ofDigits (digits ++ List.replicate n '0' ++ ['0']) =
            Decimal.ofDigits digits * Nat.pow 10 (n + 1) := by
          rw [List.append_assoc, ← List.replicate_succ', Decimal.ofDigits_append_zeros]
        rw [hvalue, hj, Nat.pow_eq, Nat.mul_assoc, Nat.mul_assoc, ← Nat.pow_add, ← Nat.pow_add,
          List.length_singleton, Nat.add_right_comm]
    · obtain ⟨n, hn⟩ : ∃ n : Nat, e.toNat = n := ⟨_, rfl⟩
      have hlong : n + 1 < digits.length := by omega
      have hk : k = j + (digits.length - (n + 1)) := by omega
      rw [if_neg hle, hn]
      refine ⟨digits.take (n + 1), digits.drop (n + 1), rfl, ?_,
        fun d hdt => hd d (List.mem_of_mem_drop hdt), fun h => ?_, ?_⟩
      · rw [ht, List.take_succ_cons]
        exact .lead hcd hc fun d hdt => hd d (by simp [ht, List.mem_of_mem_take hdt])
      · have := List.drop_eq_nil_iff.mp h
        omega
      · rw [List.take_append_drop, List.length_drop, hk, Nat.pow_add, Nat.mul_assoc]

end

def exponentDigits (e : Int) : Text :=
  List.replicate (2 - (Text.ofNat e.natAbs).length) '0' ++ Text.ofNat e.natAbs

theorem digits_exponentDigits (e : Int) : Digits (exponentDigits e) :=
  (digits_zeros _).append Text.isDigit_of_mem_ofNat

theorem exponentDigits_ne_nil (e : Int) : exponentDigits e ≠ [] :=
  List.append_ne_nil_of_right_ne_nil _ (Text.ofNat_ne_nil _)

theorem natAbs_eq_of_exponentDigits {e e' : Int} (h : exponentDigits e = exponentDigits e') :
    e.natAbs = e'.natAbs := by
  have hvalue := congrArg Decimal.ofDigits h
  unfold exponentDigits at hvalue
  simpa only [Decimal.ofDigits_zeros_append, Decimal.ofDigits_ofNat] using hvalue

theorem scientific_cons (c : Char) (t : Text) (e : Int) :
    scientific (c :: t) e = (c :: if t.isEmpty then [] else '.' :: t) ++
      'e' :: (if e < 0 then '-' else '+') :: exponentDigits e := by
  simp [scientific, exponentDigits]

theorem scientific_inj {c c' : Char} {t t' : Text} {e e' : Int} (hc : c.isDigit) (hc' : c'.isDigit)
    (ht : Digits t) (ht' : Digits t') (h : scientific (c :: t) e = scientific (c' :: t') e') :
    c = c' ∧ t = t' ∧ e = e' := by
  have free {c : Char} {t : Text} (hc : c.isDigit) (ht : Digits t) :
      ∀ d ∈ ['e'], d ∉ c :: if t.isEmpty then [] else '.' :: t := by
    have hne : ∀ c : Char, c.isDigit → 'e' ≠ c := by
      rintro c hc rfl
      exact absurd hc (by decide)
    have hnot : 'e' ∉ t := fun he => hne _ (ht _ he) rfl
    intro d hd
    obtain rfl := List.mem_singleton.mp hd
    rw [List.mem_cons, not_or]
    exact ⟨hne c hc, by split <;> simp [hnot]⟩
  rw [scientific_cons, scientific_cons] at h
  obtain ⟨hfront, hback⟩ := Text.append_stopsAt_inj (free hc ht) (free hc' ht')
    (Text.stopsAt_cons (by simp)) (Text.stopsAt_cons (by simp)) h
  simp only [List.cons.injEq, true_and] at hfront hback
  obtain ⟨rfl, hfraction⟩ := hfront
  obtain ⟨hsign, hdigits⟩ := hback
  have habs := natAbs_eq_of_exponentDigits hdigits
  refine ⟨rfl, ?_, ?_⟩
  · cases t <;> cases t' <;> simp at hfraction ⊢
    exact hfraction
  · by_cases he : e < 0 <;> by_cases he' : e' < 0 <;> simp [he, he'] at hsign <;> omega

/-! ## What a text shows -/

inductive Shows (x : Binary64) : Text → Prop
  | infinite : x.isFinite = false → Shows x ['i', 'n', 'f']
  | plain {whole fraction} : x.isFinite → IsWhole whole → Digits fraction → fraction ≠ [] →
      Decimal.toBinary64 ⟨x.negative, Decimal.ofDigits (whole ++ fraction), fraction.length⟩ = x →
      Shows x (whole ++ '.' :: fraction)
  | scaled {c t e} {j : Nat} : x.isFinite → c.isDigit → Digits t →
      readsBack decimalUnit x.rank (Decimal.ofDigits (c :: t)) j = true →
      e = (j : Int) - 1074 + t.length → Shows x (scientific (c :: t) e)

theorem isFinite_iff {x : Binary64} : x.isFinite = true ↔ x.rank < infinityRank := by
  simp [isFinite]

theorem toBinary64_zero {x : Binary64} (hx : x.rank = 0) :
    Decimal.toBinary64 ⟨x.negative, Decimal.ofDigits ['0', '0'], 1⟩ = x := by
  apply Decimal.toBinary64_of_readsBack (m := 0) (j := 0) _ rfl rfl
  · rw [show Decimal.ofDigits ['0', '0'] = 0 from rfl]
    simp only [Nat.zero_mul]
  · rw [readsBack_iff, Nat.zero_mul, hx]
    exact nearestRank_zero decimalUnit_pos

theorem shows_magnitudeText (x : Binary64) : Shows x (magnitudeText x.rank) := by
  unfold magnitudeText
  by_cases hzero : x.rank = 0
  · rw [if_pos hzero]
    exact .plain (isFinite_iff.mpr (by rw [hzero]; decide)) .zero (digits_zeros 1) (by simp)
      (toBinary64_zero hzero)
  by_cases hinf : infinityRank ≤ x.rank
  · rw [if_neg hzero, if_pos hinf]
    exact .infinite (by simpa [isFinite] using hinf)
  rw [if_neg hzero, if_neg hinf]
  have hfin : x.isFinite := isFinite_iff.mpr (by omega)
  obtain ⟨j, hj, hread⟩ := readsBack_shortest x.rank
  generalize shortest x.rank = decimal at hj hread ⊢
  dsimp only
  have hd := Text.isDigit_of_mem_ofNat (n := decimal.1)
  have hlead := Text.ofNat_lead (ne_zero_of_readsBack decimalUnit_pos hread hzero)
  rw [← Decimal.ofDigits_ofNat decimal.1] at hread
  generalize Text.ofNat decimal.1 = digits at hd hlead hread ⊢
  split
  · obtain ⟨k, hk⟩ : ∃ k, k = 1074 := ⟨1074, rfl⟩
    have he : decimal.2 + digits.length - 1 = (j : Int) - k + digits.length - 1 := by omega
    obtain ⟨whole, fraction, heq, hw, hf, hne, hvalue⟩ := positional_eq hd hlead he
    rw [heq]
    exact .plain hfin hw hf hne (Decimal.toBinary64_of_readsBack hread rfl hk hvalue)
  · obtain ⟨c, t, rfl, -⟩ := hlead
    have he : decimal.2 + (c :: t).length - 1 = (j : Int) - 1074 + t.length := by
      rw [List.length_cons]
      omega
    exact .scaled hfin (hd c (by simp)) (fun d hdt => hd d (by simp [hdt])) hread he

section
variable {x y : Binary64} {s t : Text}

/-- The characters beside digits that doubles are written with. -/
def marks : List Char := ['.', 'e', '+', '-', 'i', 'n', 'f']

theorem Shows.chars (h : Shows x t) : ∀ c ∈ t, c.isDigit ∨ c ∈ marks := by
  unfold marks
  cases h with
  | infinite => decide
  | plain _ hw hf =>
    intro c hc
    simp only [List.mem_append, List.mem_cons] at hc
    rcases hc with hc | rfl | hc
    · exact .inl (hw.digits c hc)
    · simp
    · exact .inl (hf c hc)
  | @scaled d u e j _ hd hu =>
    intro c hc
    rw [scientific_cons] at hc
    simp only [List.mem_append, List.mem_cons] at hc
    rcases hc with (rfl | hc) | rfl | rfl | hc
    · exact .inl hd
    · split at hc
      · cases hc
      · rcases List.mem_cons.mp hc with rfl | hc
        · simp
        · exact .inl (hu c hc)
    · simp
    · by_cases he : e < 0 <;> simp [he]
    · exact .inl (digits_exponentDigits e c hc)

theorem not_digits_of_mem {c : Char} (hc : c.isDigit = false) (ht : c ∈ t) : ¬Digits t := by
  intro h
  rw [h c ht] at hc
  cases hc

theorem Shows.not_digits (h : Shows x t) : ¬Digits t ∧ t.head? ≠ some '-' := by
  have no_sign {c : Char} {t : Text} (hc : c.isDigit) : (c :: t).head? ≠ some '-' := by
    intro he
    rw [Option.some.inj he] at hc
    exact absurd hc (by decide)
  cases h with
  | infinite => exact ⟨not_digits_of_mem (c := 'i') rfl (by simp), by simp⟩
  | plain _ hw =>
    refine ⟨not_digits_of_mem (c := '.') rfl (by simp), ?_⟩
    cases hw with
    | zero => exact no_sign rfl
    | lead hc => exact no_sign hc
  | scaled _ hc =>
    rw [scientific_cons]
    exact ⟨not_digits_of_mem (c := 'e') rfl (by simp), no_sign hc⟩

theorem not_mem_e_of_plain {whole fraction : Text} (hw : IsWhole whole) (hf : Digits fraction) :
    'e' ∉ whole ++ '.' :: fraction := by
  intro he
  simp only [List.mem_append, List.mem_cons] at he
  rcases he with he | he | he
  · exact absurd (hw.digits _ he) (by decide)
  · exact absurd he (by decide)
  · exact absurd (hf _ he) (by decide)

theorem rank_of_infinite (hx : x.isFinite = false) : x.rank = infinityRank := by
  have hle := x.rank_le
  simp only [isFinite, decide_eq_false_iff_not] at hx
  omega

theorem ext_of_rank (hs : x.negative = y.negative) (hr : x.rank = y.rank) : x = y := by
  cases x
  cases y
  simp_all

theorem Shows.inj (h : Shows x s) (h' : Shows y t) (hs : x.negative = y.negative) (he : s = t) :
    x = y := by
  -- an `e` or a point tells the layouts apart, and neither is in the word
  cases h with
  | infinite hx =>
    cases h' with
    | infinite hy => exact ext_of_rank hs ((rank_of_infinite hx).trans (rank_of_infinite hy).symm)
    | plain _ hw hf =>
      have hi : '.' ∈ ['i', 'n', 'f'] := by simp [he]
      exact absurd hi (by decide)
    | scaled =>
      have hi : 'e' ∈ ['i', 'n', 'f'] := by simp [he, scientific_cons]
      exact absurd hi (by decide)
  | plain _ hw hf _ hvalue =>
    cases h' with
    | infinite hy =>
      have hi : '.' ∈ ['i', 'n', 'f'] := by simp [← he]
      exact absurd hi (by decide)
    | plain _ hw' hf' _ hvalue' =>
      obtain ⟨rfl, hfraction⟩ :=
        Text.append_stop_inj hw.digits hw'.digits (by simp) (by simp) he
      obtain rfl := (List.cons.inj hfraction).2
      rw [← hvalue, ← hvalue', hs]
    | scaled =>
      refine absurd ?_ (not_mem_e_of_plain hw hf)
      simp [he, scientific_cons]
  | @scaled _ _ _ j _ hc ht hread hexp =>
    cases h' with
    | infinite =>
      have hi : 'e' ∈ ['i', 'n', 'f'] := by simp [← he, scientific_cons]
      exact absurd hi (by decide)
    | plain _ hw hf =>
      refine absurd ?_ (not_mem_e_of_plain hw hf)
      simp [← he, scientific_cons]
    | @scaled _ _ _ j' _ hc' ht' hread' hexp' =>
      obtain ⟨rfl, rfl, rfl⟩ := scientific_inj hc hc' ht ht' he
      obtain rfl : j = j' := by omega
      exact ext_of_rank hs ((readsBack_iff.mp hread).symm.trans (readsBack_iff.mp hread'))

theorem toText_eq (x : Binary64) :
    x.toText = (if x.negative then ['-'] else []) ++ magnitudeText x.rank := by
  unfold toText
  split <;> rfl

theorem toText_chars (x : Binary64) : ∀ c ∈ x.toText, c.isDigit ∨ c ∈ marks := by
  have h := (shows_magnitudeText x).chars
  unfold toText
  split
  · exact List.forall_mem_cons.mpr ⟨by decide, h⟩
  · exact h

theorem toText_not_digits (x : Binary64) : ¬Digits x.toText := by
  unfold toText
  split
  · exact not_digits_of_mem (c := '-') rfl (by simp)
  · exact (shows_magnitudeText x).not_digits.1

theorem toText_inj (h : x.toText = y.toText) : x = y := by
  have hx := shows_magnitudeText x
  have hy := shows_magnitudeText y
  unfold toText at h
  -- a sign in front is not part of the magnitude
  by_cases hnx : x.negative = true <;> by_cases hny : y.negative = true
  · rw [if_pos hnx, if_pos hny] at h
    exact hx.inj hy (hnx.trans hny.symm) (List.cons.inj h).2
  · rw [if_pos hnx, if_neg hny] at h
    exact absurd (by rw [← h]; rfl) hy.not_digits.2
  · rw [if_neg hnx, if_pos hny] at h
    exact absurd (by rw [h]; rfl) hx.not_digits.2
  · rw [if_neg hnx, if_neg hny] at h
    rw [Bool.not_eq_true] at hnx hny
    exact hx.inj hy (hnx.trans hny.symm) h

end

end Binary64

end MathTokens
