/-!
# Text

A text is a list of characters, so that lengths, offsets and columns count characters. Beside the
type stand the few ways of writing a number that the other modules share.
-/

namespace MathTokens

abbrev Text := List Char

namespace Text

def dropEndWhile (p : Char → Bool) (t : Text) : Text :=
  (t.reverse.dropWhile p).reverse

theorem dropEndWhile_subset (p : Char → Bool) (t : Text) : dropEndWhile p t ⊆ t := by
  intro c hc
  exact List.mem_reverse.mp ((List.dropWhile_suffix p).subset (List.mem_reverse.mp hc))

/-- Exactly `width` digits of `n` in base `b`, the lowest ones. -/
def digits (b : Nat) : Nat → Nat → Text
  | 0, _ => []
  | width + 1, n => digits b width (n / b) ++ [Nat.digitChar (n % b)]

theorem length_digits (b width n : Nat) : (digits b width n).length = width := by
  induction width generalizing n with
  | zero => rfl
  | succ width ih => simp [digits, ih]

def ofNat (n : Nat) : Text :=
  Nat.toDigits 10 n

def ofInt (n : Int) : Text :=
  if n < 0 then '-' :: ofNat n.natAbs else ofNat n.natAbs

def inRanges (rs : List (Nat × Nat)) (n : Nat) : Bool :=
  rs.any fun r => r.1 ≤ n && n ≤ r.2

/-! ## Cutting a text at a character -/

theorem takeWhile_append_of_mem {p : Char → Bool} {a b : Text} {c : Char} (hc : c ∈ a)
    (hp : p c = false) : (a ++ b).takeWhile p = a.takeWhile p := by
  induction a with
  | nil => cases hc
  | cons d a ih =>
    rw [List.cons_append, List.takeWhile_cons, List.takeWhile_cons]
    split
    · next hd =>
      rw [ih]
      cases hc with
      | head => rw [hp] at hd; cases hd
      | tail _ h => exact h
    · rfl

theorem takeWhile_append_of_stop {p : Char → Bool} {a b : Text} (ha : ∀ c ∈ a, p c)
    (hb : ∀ c, b.head? = some c → p c = false) : (a ++ b).takeWhile p = a := by
  rw [List.takeWhile_append_of_pos ha]
  cases b with
  | nil => simp
  | cons c b => simp [hb c rfl]

theorem dropWhile_append_of_stop {p : Char → Bool} {a b : Text} (ha : ∀ c ∈ a, p c)
    (hb : ∀ c, b.head? = some c → p c = false) : (a ++ b).dropWhile p = b := by
  rw [List.dropWhile_append_of_pos ha]
  cases b with
  | nil => rfl
  | cons c b => simp [hb c rfl]

theorem dropEndWhile_append_of_stop {p : Char → Bool} {a b : Text}
    (ha : ∀ c, a.getLast? = some c → p c = false) (hb : ∀ c ∈ b, p c) : dropEndWhile p (a ++ b) = a := by
  unfold dropEndWhile
  rw [List.reverse_append, dropWhile_append_of_stop (by simpa using hb) (by simpa using ha), List.reverse_reverse]

theorem exists_dropEndWhile_append (p : Char → Bool) (t : Text) :
    ∃ s, (∀ c ∈ s, p c) ∧ t = dropEndWhile p t ++ s := by
  refine ⟨(t.reverse.takeWhile p).reverse, fun c hc => ?_, ?_⟩
  · exact List.all_eq_true.mp List.all_takeWhile c (List.mem_reverse.mp hc)
  · rw [dropEndWhile, ← List.reverse_append, List.takeWhile_append_dropWhile, List.reverse_reverse]

theorem not_of_getLast?_dropEndWhile {p : Char → Bool} {t : Text} {c : Char}
    (h : (dropEndWhile p t).getLast? = some c) : p c = false := by
  unfold dropEndWhile at h
  rw [List.getLast?_reverse] at h
  have hstop := List.head?_dropWhile_not p t.reverse
  rwa [h] at hstop

theorem takeWhile_append_cons_tail {c : Char} {t : Text} (h : c ∈ t) :
    t.takeWhile (· ≠ c) ++ c :: (t.dropWhile (· ≠ c)).tail = t := by
  induction t with
  | nil => cases h
  | cons d t ih =>
    by_cases hd : d = c
    · simp [hd]
    · have : c ∈ t := by
        cases h with
        | head => exact absurd rfl hd
        | tail _ h => exact h
      simpa [hd] using ih this

end Text

end MathTokens
