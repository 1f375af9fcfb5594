import Mathlib.Order.Bounds.Defs
import MathTokens.Proofs.Encoding

/-!
# Where decoding stops

Bytes are decoded exactly if they are the bytes of a text. Otherwise the fault starts where the
longest text ends that the bytes begin with: each byte is checked against what may still become a
character, so the first sequence that is none is where no text goes on.
-/

namespace MathTokens.Utf8

/-! ## The bytes of a character -/

section
variable {n : Nat}

theorem encodeChar_one (h : n < 0x80) : encodeChar (Char.ofNat n) = [byte n] := by
  rw [encodeChar, Text.toNat_ofNat (by omega), if_pos h]

theorem encodeChar_two (h : 0x80 ≤ n) (h' : n < 0x800) :
    encodeChar (Char.ofNat n) = [byte (0xc0 + n / 0x40), tail n] := by
  rw [encodeChar, Text.toNat_ofNat (by omega), if_neg (by omega), if_pos h']

theorem encodeChar_three (h : 0x800 ≤ n) (h' : n < 0x10000) (hs : n < 0xd800 ∨ 0xdfff < n) :
    encodeChar (Char.ofNat n) = [byte (0xe0 + n / 0x1000), tail (n / 0x40), tail n] := by
  rw [encodeChar, Text.toNat_ofNat (by omega), if_neg (by omega), if_neg (by omega), if_pos h']

theorem encodeChar_four (h : 0x10000 ≤ n) (h' : n < 0x110000) :
    encodeChar (Char.ofNat n) =
      [byte (0xf0 + n / 0x40000), tail (n / 0x1000), tail (n / 0x40), tail n] := by
  rw [encodeChar, Text.toNat_ofNat (by omega), if_neg (by omega), if_neg (by omega), if_neg (by omega)]

end

theorem encodeChar_ne_nil (c : Char) : encodeChar c ≠ [] := by
  unfold encodeChar
  dsimp only
  split
  · simp
  · split
    · simp
    · split <;> simp

theorem byte_eq {b : UInt8} {n : Nat} (h : b.toNat = n) : b = byte n := by
  have hb := b.toNat_lt
  rw [← UInt8.toNat_inj, toNat_byte (by omega), h]

/-! ## One character -/

/-- The sequence that starts at `position` is at fault. -/
def FaultAt (position : Nat) (pending? : Option Pending) (bs : Bytes) : Prop :=
  ∃ f, decodeFrom position pending? bs = .error f ∧ f.position = position

section
variable {position : Nat} {b : UInt8} {bs : Bytes} {p : Pending}

theorem start?_eq_some (h : start? b = some p) :
    p.first = b ∧ p.read = 1 ∧ 0x80 ≤ p.low ∧ p.low ≤ p.high ∧ p.high ≤ 0xbf := by
  unfold start? at h
  dsimp only at h
  repeat' split at h
  all_goals cases h
  all_goals exact ⟨rfl, rfl, by dsimp only; omega, by dsimp only; omega, by dsimp only; omega⟩

theorem start?_cases (b : UInt8) :
    start? b = none ∨
      (∃ n < 0x80, b = byte n) ∨
      (∃ v, 2 ≤ v ∧ v < 0x20 ∧ b = byte (0xc0 + v) ∧ start? b = some ⟨b, 1, v, 1, 0x80, 0xbf⟩) ∨
      (∃ v low high, v < 0x10 ∧ b = byte (0xe0 + v) ∧ start? b = some ⟨b, 1, v, 2, low, high⟩ ∧
        (v = 0 → low = 0xa0) ∧ (v = 0xd → high = 0x9f)) ∨
      ∃ v low high, v < 5 ∧ b = byte (0xf0 + v) ∧ start? b = some ⟨b, 1, v, 3, low, high⟩ ∧
        (v = 0 → low = 0x90) ∧ (v = 4 → high = 0x8f) := by
  generalize hs : start? b = started
  unfold start? at hs
  dsimp only at hs
  generalize hn : b.toNat = n at hs
  split at hs
  · next h => exact .inr (.inl ⟨n, h, byte_eq hn⟩)
  split at hs
  · exact .inl hs.symm
  split at hs
  · exact .inr (.inr (.inl ⟨n - 0xc0, by omega, by omega, byte_eq (by omega), hs.symm⟩))
  split at hs
  · refine .inr (.inr (.inr (.inl ⟨n - 0xe0, _, _, by omega, byte_eq (by omega), hs.symm, ?_, ?_⟩)))
    · exact fun hv => if_pos (by omega)
    · exact fun hv => if_pos (by omega)
  split at hs
  · refine .inr (.inr (.inr (.inr ⟨n - 0xf0, _, _, by omega, byte_eq (by omega), hs.symm, ?_, ?_⟩)))
    · exact fun hv => if_pos (by omega)
    · exact fun hv => if_pos (by omega)
  · exact .inl hs.symm

theorem faultAt_or_tail (hlow : 0x80 ≤ p.low) (hhigh : p.high ≤ 0xbf) (position : Nat) (bs : Bytes) :
    FaultAt position (some p) bs ∨ ∃ n rest, bs = tail n :: rest ∧ n / 0x40 = p.value ∧
      p.low ≤ 0x80 + n % 0x40 ∧ 0x80 + n % 0x40 ≤ p.high := by
  cases bs with
  | nil => exact .inl ⟨_, rfl, rfl⟩
  | cons b rest =>
    by_cases hb : p.low ≤ b.toNat ∧ b.toNat ≤ p.high
    · have htail : b = tail (p.value * 0x40 + (b.toNat - 0x80)) := by
        rw [← UInt8.toNat_inj, toNat_tail]
        omega
      refine .inr ⟨_, rest, congrArg (· :: rest) htail, by omega, by omega, by omega⟩
    · refine .inl ⟨⟨.invalidContinuation, position, p.first, p.read⟩, ?_, rfl⟩
      simp only [decodeFrom, Pending.continue?, if_neg hb]

theorem FaultAt.start (h : start? b = some p) (htails : p.tails ≠ 0)
    (hfault : FaultAt position (some p) bs) : FaultAt position none (b :: bs) := by
  unfold FaultAt
  rw [decodeFrom_start h htails]
  exact hfault

theorem FaultAt.tail {n : Nat} (hlow : p.low ≤ 0x80 + n % 0x40) (hhigh : 0x80 + n % 0x40 ≤ p.high)
    (htails : 1 < p.tails) (hn : n / 0x40 = p.value)
    (hfault : FaultAt position (some ⟨p.first, p.read + 1, n, p.tails - 1, 0x80, 0xbf⟩) bs) :
    FaultAt position (some p) (tail n :: bs) := by
  have hvalue : p.value * 0x40 + n % 0x40 = n := by omega
  unfold FaultAt
  rw [decodeFrom_tail hlow hhigh htails, hvalue]
  exact hfault

theorem faultAt_or_encodeChar (position : Nat) (b : UInt8) (bs : Bytes) :
    FaultAt position none (b :: bs) ∨ ∃ c rest, b :: bs = encodeChar c ++ rest := by
  rcases start?_cases b with h | ⟨n, hn, rfl⟩ | ⟨v, hv, hv', hb, h⟩ |
    ⟨v, low, high, hv, hb, h, hv0, hvd⟩ | ⟨v, low, high, hv, hb, h, hv0, hv4⟩
  · refine .inl ⟨⟨.invalidStart, position, b, 1⟩, ?_, rfl⟩
    simp only [decodeFrom, h]
  · exact .inr ⟨Char.ofNat n, bs, by rw [encodeChar_one hn]; rfl⟩
  · rcases faultAt_or_tail (p := ⟨b, 1, v, 1, 0x80, 0xbf⟩) (by simp) (by simp) position bs with
      hf | ⟨n, rest, rfl, hn, -, -⟩
    · exact .inl (hf.start h (by simp))
    · dsimp only at hn
      refine .inr ⟨Char.ofNat n, rest, ?_⟩
      rw [encodeChar_two (by omega) (by omega), hn, hb]
      rfl
  · obtain ⟨-, -, hlow, -, hhigh⟩ := start?_eq_some h
    rcases faultAt_or_tail (p := ⟨b, 1, v, 2, low, high⟩) hlow hhigh position bs with
      hf | ⟨m, rest, rfl, hm, hml, hmh⟩
    · exact .inl (hf.start h (by simp))
    rcases faultAt_or_tail (p := ⟨b, 2, m, 1, 0x80, 0xbf⟩) (by simp) (by simp) position rest with
      hf | ⟨n, rest, rfl, hn, -, -⟩
    · exact .inl ((hf.tail hml hmh (by simp) hm).start h (by simp))
    · dsimp only at hm hml hmh hn
      have hnv : n / 0x1000 = v := by omega
      refine .inr ⟨Char.ofNat n, rest, ?_⟩
      rw [encodeChar_three (by omega) (by omega) (by omega), hn, hnv, hb]
      rfl
  · obtain ⟨-, -, hlow, -, hhigh⟩ := start?_eq_some h
    rcases faultAt_or_tail (p := ⟨b, 1, v, 3, low, high⟩) hlow hhigh position bs with
      hf | ⟨k, rest, rfl, hk, hkl, hkh⟩
    · exact .inl (hf.start h (by simp))
    rcases faultAt_or_tail (p := ⟨b, 2, k, 2, 0x80, 0xbf⟩) (by simp) (by simp) position rest with
      hf | ⟨m, rest, rfl, hm, hml, hmh⟩
    · exact .inl ((hf.tail hkl hkh (by simp) hk).start h (by simp))
    rcases faultAt_or_tail (p := ⟨b, 3, m, 1, 0x80, 0xbf⟩) (by simp) (by simp) position rest with
      hf | ⟨n, rest, rfl, hn, -, -⟩
    · exact .inl (((hf.tail hml hmh (by simp) hm).tail hkl hkh (by simp) hk).start h (by simp))
    · dsimp only at hk hkl hkh hm hn
      have hnk : n / 0x1000 = k := by omega
      have hnv : n / 0x40000 = v := by omega
      refine .inr ⟨Char.ofNat n, rest, ?_⟩
      rw [encodeChar_four (by omega) (by omega), hn, hnk, hnv, hb]
      rfl

end

/-! ## All bytes -/

theorem encode_cons (c : Char) (t : Text) : encode (c :: t) = encodeChar c ++ encode t :=
  List.flatMap_cons

theorem encode_singleton (c : Char) : encode [c] = encodeChar c :=
  List.flatMap_singleton encodeChar c

theorem decodeFrom_encode_append (t : Text) (position : Nat) (bs : Bytes) :
    decodeFrom position none (encode t ++ bs) =
      (decodeFrom (position + (encode t).length) none bs).map (t ++ ·) := by
  induction t generalizing position with
  | nil =>
    show decodeFrom position none bs = (decodeFrom position none bs).map id
    cases decodeFrom position none bs <;> rfl
  | cons c t ih =>
    rw [encode_cons, List.append_assoc, decodeFrom_encodeChar_append, ih, List.length_append,
      Nat.add_assoc]
    cases decodeFrom (position + ((encodeChar c).length + (encode t).length)) none bs <;> rfl

/-- Bytes are a text, or a text with a sequence behind it that is at fault. -/
theorem text_or_faultAt (position : Nat) (bs : Bytes) :
    (∃ t, bs = encode t) ∨
      ∃ t rest, bs = encode t ++ rest ∧ FaultAt (position + (encode t).length) none rest := by
  induction h : bs.length using Nat.strongRecOn generalizing position bs with
  | ind n ih =>
    cases bs with
    | nil => exact .inl ⟨[], rfl⟩
    | cons b bs =>
      rcases faultAt_or_encodeChar position b bs with hf | ⟨c, rest, hc⟩
      · exact .inr ⟨[], b :: bs, rfl, hf⟩
      · rw [hc] at h ⊢
        have hpos := List.length_pos_iff.mpr (encodeChar_ne_nil c)
        rw [List.length_append] at h
        rcases ih rest.length (by omega) (position + (encodeChar c).length) rest rfl with
          ⟨t, rfl⟩ | ⟨t, rest, rfl, hf⟩
        · exact .inl ⟨c :: t, (encode_cons c t).symm⟩
        · refine .inr ⟨c :: t, rest, ?_, ?_⟩
          · rw [encode_cons, List.append_assoc]
          · rwa [encode_cons, List.length_append, ← Nat.add_assoc]

section
variable {t : Text} {bs : Bytes} {f : Fault}

theorem encode_inj {t' : Text} (h : encode t = encode t') : t = t' := by
  have hd := decode_encode t
  rw [h, decode_encode] at hd
  exact (Except.ok.inj hd).symm

theorem decode_eq_ok_iff : decode bs = .ok t ↔ encode t = bs := by
  constructor
  · intro h
    rcases text_or_faultAt 0 bs with ⟨t', rfl⟩ | ⟨t', rest, rfl, f, hf, -⟩
    · rw [decode_encode] at h
      rw [Except.ok.inj h]
    · rw [decode, decodeFrom_encode_append, hf] at h
      cases h
  · rintro rfl
    exact decode_encode t

theorem exists_decode_eq_error (h : ¬∃ t, encode t = bs) : ∃ f, decode bs = .error f := by
  cases hd : decode bs with
  | ok t => exact absurd ⟨t, decode_eq_ok_iff.mp hd⟩ h
  | error f => exact ⟨f, rfl⟩

/-- **Faults.** The fault lies behind the longest text that the bytes begin with. -/
theorem isGreatest_position (h : decode bs = .error f) :
    IsGreatest {n | ∃ t, encode t <+: bs ∧ (encode t).length = n} f.position := by
  rcases text_or_faultAt 0 bs with ⟨t, rfl⟩ | ⟨t, rest, rfl, g, hg, hposition⟩
  · rw [decode_encode] at h
    cases h
  rw [decode, decodeFrom_encode_append, hg] at h
  obtain rfl : g = f := Except.error.inj h
  rw [hposition, Nat.zero_add]
  refine ⟨⟨t, List.prefix_append _ _, rfl⟩, ?_⟩
  rintro _ ⟨t', ⟨more, hmore⟩, rfl⟩
  -- a longer text would make decoding go on behind the fault
  rcases text_or_faultAt (encode t').length more with ⟨u, rfl⟩ | ⟨u, rest', rfl, g', hg', hposition'⟩
  · have hd := decodeFrom_encode_append t 0 rest
    rw [← hmore, hg, decodeFrom_encode_append, decodeFrom_encode] at hd
    cases hd
  · have hd := decodeFrom_encode_append t 0 rest
    rw [← hmore, hg, decodeFrom_encode_append, Nat.zero_add, decodeFrom_encode_append, hg'] at hd
    obtain rfl : g' = g := Except.error.inj hd
    omega

end

end MathTokens.Utf8
