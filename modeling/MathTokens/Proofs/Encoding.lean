import MathTokens.Proofs.Codes
import MathTokens.Text.Utf8

/-!
# Encoding and decoding

The bytes of a character are read one by one. Each step takes six bits off the number that is still to
come, and the range of the second byte, which keeps overlong forms and surrogates out, holds the byte
that the encoder writes. So what is encoded is decoded again.
-/

namespace MathTokens.Utf8

theorem toNat_byte {n : Nat} (h : n < 0x100) : (byte n).toNat = n := by
  rw [byte, UInt8.toNat_ofNat', Nat.mod_eq_of_lt h]

theorem toNat_tail (n : Nat) : (tail n).toNat = 0x80 + n % 0x40 :=
  toNat_byte (by omega)

section
variable {position n : Nat} {bs : Bytes} {p : Pending}

theorem decodeFrom_tail_last (hlow : p.low ≤ 0x80 + n % 0x40) (hhigh : 0x80 + n % 0x40 ≤ p.high)
    (htails : p.tails = 1) :
    decodeFrom position (some p) (tail n :: bs) =
      (decodeFrom (position + (p.read + 1)) none bs).map
        (Char.ofNat (p.value * 0x40 + n % 0x40) :: ·) := by
  rw [decodeFrom, Pending.continue?]
  simp only [toNat_tail, hlow, hhigh, and_self, if_true, htails, Nat.add_sub_cancel_left, Nat.sub_self]

theorem decodeFrom_tail (hlow : p.low ≤ 0x80 + n % 0x40) (hhigh : 0x80 + n % 0x40 ≤ p.high)
    (htails : 1 < p.tails) :
    decodeFrom position (some p) (tail n :: bs) =
      decodeFrom position
        (some ⟨p.first, p.read + 1, p.value * 0x40 + n % 0x40, p.tails - 1, 0x80, 0xbf⟩) bs := by
  have hmore : p.tails - 1 ≠ 0 := by omega
  rw [decodeFrom, Pending.continue?]
  simp only [toNat_tail, hlow, hhigh, and_self, if_true, hmore, if_false, Nat.add_sub_cancel_left]

theorem decodeFrom_start {p : Pending} {b : UInt8} (h : start? b = some p) (htails : p.tails ≠ 0) :
    decodeFrom position none (b :: bs) = decodeFrom position (some p) bs := by
  rw [decodeFrom, h]
  simp only [htails, if_false]

end

section
variable {n : Nat}

theorem start?_one (h : n < 0x80) : start? (byte n) = some ⟨byte n, 1, n, 0, 0x80, 0xbf⟩ := by
  unfold start?
  rw [toNat_byte (by omega)]
  exact if_pos h

theorem start?_two (h : 0x80 ≤ n) (h' : n < 0x800) :
    start? (byte (0xc0 + n / 0x40)) = some ⟨byte (0xc0 + n / 0x40), 1, n / 0x40, 1, 0x80, 0xbf⟩ := by
  unfold start?
  rw [toNat_byte (by omega)]
  dsimp only
  rw [if_neg (by omega), if_neg (by omega), if_pos (by omega), Nat.add_sub_cancel_left]

theorem start?_three (h' : n < 0x10000) :
    start? (byte (0xe0 + n / 0x1000)) =
      some ⟨byte (0xe0 + n / 0x1000), 1, n / 0x1000, 2, if n < 0x1000 then 0xa0 else 0x80,
        if n / 0x1000 = 0xd then 0x9f else 0xbf⟩ := by
  have hlow : 0xe0 + n / 0x1000 = 0xe0 ↔ n < 0x1000 := by omega
  have hhigh : 0xe0 + n / 0x1000 = 0xed ↔ n / 0x1000 = 0xd := by omega
  unfold start?
  rw [toNat_byte (by omega)]
  dsimp only
  rw [if_neg (by omega), if_neg (by omega), if_neg (by omega), if_pos (by omega),
    Nat.add_sub_cancel_left]
  simp only [hlow, hhigh]

theorem start?_four (h' : n < 0x110000) :
    start? (byte (0xf0 + n / 0x40000)) =
      some ⟨byte (0xf0 + n / 0x40000), 1, n / 0x40000, 3, if n < 0x40000 then 0x90 else 0x80,
        if n / 0x40000 = 4 then 0x8f else 0xbf⟩ := by
  have hlow : 0xf0 + n / 0x40000 = 0xf0 ↔ n < 0x40000 := by omega
  have hhigh : 0xf0 + n / 0x40000 = 0xf4 ↔ n / 0x40000 = 4 := by omega
  unfold start?
  rw [toNat_byte (by omega)]
  dsimp only
  rw [if_neg (by omega), if_neg (by omega), if_neg (by omega), if_neg (by omega), if_pos (by omega),
    Nat.add_sub_cancel_left]
  simp only [hlow, hhigh]

end

theorem decodeFrom_encodeChar_append (c : Char) (position : Nat) (bs : Bytes) :
    decodeFrom position none (encodeChar c ++ bs) =
      (decodeFrom (position + (encodeChar c).length) none bs).map (c :: ·) := by
  have hc := Text.toNat_lt c
  have hchar := Char.ofNat_toNat c
  unfold encodeChar
  -- one case for each length: the parts of the number are put together again
  generalize c.toNat = n at hc hchar ⊢
  subst hchar
  dsimp only
  split
  · next h =>
    rw [List.singleton_append, decodeFrom, start?_one h]
    rfl
  split
  · next h h' =>
    have hvalue : n / 0x40 * 0x40 + n % 0x40 = n := by omega
    rw [List.cons_append, decodeFrom_start (start?_two (by omega) h') (by simp), List.singleton_append,
      decodeFrom_tail_last _ _ rfl, hvalue]
    · rfl
    · dsimp only; omega
    · dsimp only; omega
  split
  · next h h' h'' =>
    have hvalue : (n / 0x1000 * 0x40 + n / 0x40 % 0x40) * 0x40 + n % 0x40 = n := by omega
    rw [List.cons_append, decodeFrom_start (start?_three h'') (by simp), List.cons_append,
      decodeFrom_tail _ _ (by simp), List.singleton_append, decodeFrom_tail_last _ _ rfl, hvalue]
    · rfl
    · dsimp only; omega
    · dsimp only; omega
    · dsimp only; split <;> omega
    · dsimp only; split <;> omega
  · next h h' h'' =>
    have hvalue :
        ((n / 0x40000 * 0x40 + n / 0x1000 % 0x40) * 0x40 + n / 0x40 % 0x40) * 0x40 + n % 0x40 = n := by
      omega
    rw [List.cons_append, decodeFrom_start (start?_four (by omega)) (by simp), List.cons_append,
      decodeFrom_tail _ _ (by simp), List.cons_append, decodeFrom_tail _ _ (by simp),
      List.singleton_append, decodeFrom_tail_last _ _ rfl, hvalue]
    · rfl
    · dsimp only; omega
    · dsimp only; omega
    · dsimp only; omega
    · dsimp only; omega
    · dsimp only; split <;> omega
    · dsimp only; split <;> omega

theorem decodeFrom_encode (t : Text) (position : Nat) : decodeFrom position none (encode t) = .ok t := by
  induction t generalizing position with
  | nil => rfl
  | cons c t ih =>
    rw [encode, List.flatMap_cons, decodeFrom_encodeChar_append, ← encode, ih]
    rfl

theorem decode_encode (t : Text) : decode (encode t) = .ok t :=
  decodeFrom_encode t 0

end MathTokens.Utf8
