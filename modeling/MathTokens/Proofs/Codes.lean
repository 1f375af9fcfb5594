import MathTokens.Text.Basic

/-!
# Writing that can be read back

A run of characters is told from what follows it if that cannot go on with the run. A text written
character by character is told from what follows the quote after it if no character is written like
the beginning of another one, and none is written with the quote in front.
-/

namespace MathTokens.Text

/-- What is claimed of the characters of a text is decided along the text, not for all characters. -/
instance (priority := high) decidableForallMem (p : Char → Prop) [DecidablePred p] (t : Text) :
    Decidable (∀ c ∈ t, p c) :=
  List.decidableBAll p t

theorem append_stop_inj {p : Char → Bool} {a b s t : Text} (ha : ∀ c ∈ a, p c) (hb : ∀ c ∈ b, p c)
    (hs : ∀ c, s.head? = some c → p c = false) (ht : ∀ c, t.head? = some c → p c = false)
    (h : a ++ s = b ++ t) : a = b ∧ s = t := by
  have hab : a = b := by
    rw [← takeWhile_append_of_stop ha hs, h, takeWhile_append_of_stop hb ht]
  subst hab
  exact ⟨rfl, List.append_cancel_left h⟩

/-- The text is empty or begins with one of the characters `cs`. -/
def StopsAt (cs : List Char) (t : Text) : Prop :=
  ∀ c, t.head? = some c → c ∈ cs

theorem stopsAt_cons {cs : List Char} {c : Char} {t : Text} (h : c ∈ cs) : StopsAt cs (c :: t) := by
  intro d hd
  rwa [← Option.some.inj hd]

theorem append_stopsAt_inj {cs : List Char} {a b s t : Text} (ha : ∀ c ∈ cs, c ∉ a)
    (hb : ∀ c ∈ cs, c ∉ b) (hs : StopsAt cs s) (ht : StopsAt cs t) (h : a ++ s = b ++ t) :
    a = b ∧ s = t := by
  have free {a : Text} (ha : ∀ c ∈ cs, c ∉ a) : ∀ c ∈ a, decide (c ∉ cs) = true := by
    intro c hc
    simp only [decide_eq_true_eq]
    exact fun hcs => ha c hcs hc
  apply append_stop_inj (free ha) (free hb) _ _ h
  · intro c hc
    simp [hs c hc]
  · intro c hc
    simp [ht c hc]

/-! ## Numbers -/

theorem isDigit_of_mem_ofNat {n : Nat} : ∀ c ∈ ofNat n, c.isDigit := by
  intro c hc
  exact Nat.isDigit_of_mem_toDigits (by decide) (by decide) hc

theorem ofNat_ne_nil (n : Nat) : ofNat n ≠ [] :=
  Nat.toDigits_ne_nil

theorem ofNat_inj {m n : Nat} (h : ofNat m = ofNat n) : m = n := by
  have := congrArg (Nat.ofDigitChars 10 · 0) h
  simpa only [ofNat, Nat.ofDigitChars_ten_toDigits] using this

theorem ofNat_lead {n : Nat} (hn : n ≠ 0) : ∃ c t, ofNat n = c :: t ∧ c ≠ '0' := by
  induction n using Nat.strongRecOn with
  | ind n ih =>
    unfold ofNat
    rw [Nat.toDigits_eq_if (by decide)]
    by_cases hlt : n < 10
    · rw [if_pos hlt]
      exact ⟨_, [], rfl, fun h => hn (Nat.digitChar_eq_zero.mp h)⟩
    · obtain ⟨c, t, ht, hc⟩ := ih (n / 10) (by omega) (by omega)
      rw [if_neg hlt, ← ofNat, ht]
      exact ⟨c, _, rfl, hc⟩

theorem digitChar_inj {m n : Nat} (hm : m < 16) (hn : n < 16) (h : m.digitChar = n.digitChar) :
    m = n := by
  have all : ∀ m < 16, ∀ n < 16, m.digitChar = n.digitChar → m = n := by decide
  exact all m hm n hn h

theorem digits_inj {width m n : Nat} (hm : m < Nat.pow 16 width) (hn : n < Nat.pow 16 width)
    (h : digits 16 width m = digits 16 width n) : m = n := by
  induction width generalizing m n with
  | zero => exact (Nat.lt_one_iff.mp hm).trans (Nat.lt_one_iff.mp hn).symm
  | succ width ih =>
    rw [digits, digits] at h
    obtain ⟨hq, hr⟩ := List.append_inj' h rfl
    rw [Nat.pow_eq, Nat.pow_succ, ← Nat.pow_eq] at hm hn
    have hquotient : m / 16 = n / 16 := by
      apply ih _ _ hq
      · omega
      · omega
    have hremainder : m % 16 = n % 16 := by
      apply digitChar_inj _ _ (List.singleton_inj.mp hr)
      · omega
      · omega
    omega

theorem exists_digitChar_of_mem_digits {width n : Nat} {c : Char} (h : c ∈ digits 16 width n) :
    ∃ k < 16, c = k.digitChar := by
  induction width generalizing n with
  | zero => cases h
  | succ width ih =>
    rw [digits, List.mem_append, List.mem_singleton] at h
    rcases h with h | h
    · exact ih h
    · exact ⟨n % 16, by omega, h⟩

theorem ascii_of_isDigit {c : Char} (h : c.isDigit) : 0x20 ≤ c.toNat ∧ c.toNat < 0x7f := by
  obtain ⟨h0, h9⟩ := Char.isDigit_iff_toNat.mp h
  have : '0'.toNat = 48 ∧ '9'.toNat = 57 := ⟨rfl, rfl⟩
  omega

/-! ## Code points of characters -/

theorem toNat_lt (c : Char) : c.toNat < 0xd800 ∨ 0xdfff < c.toNat ∧ c.toNat < 0x110000 :=
  c.valid

theorem toNat_ofNat {n : Nat} (h : n < 0xd800 ∨ 0xdfff < n ∧ n < 0x110000) :
    (Char.ofNat n).toNat = n := by
  rw [Char.ofNat, dif_pos h]
  rfl

/-! ## Escapes -/

/-- No character is written like the beginning of another one, and none with `q` in front. -/
structure Escapes {α : Type} (q : Char) (f : α → Text) : Prop where
  inj : ∀ {c d s t}, f c ++ s = f d ++ t → c = d
  not_quote : ∀ {c s t}, f c ++ s ≠ q :: t

theorem Escapes.flatMap_inj {α : Type} {q : Char} {f : α → Text} (h : Escapes q f) :
    ∀ {a b : List α} {s t : Text}, a.flatMap f ++ q :: s = b.flatMap f ++ q :: t → a = b ∧ s = t
  | [], [], _, _, he => ⟨rfl, (List.cons.inj he).2⟩
  | [], d :: b, _, _, he => by
    rw [List.flatMap_cons, List.append_assoc] at he
    exact absurd he.symm h.not_quote
  | c :: a, [], _, _, he => by
    rw [List.flatMap_cons, List.append_assoc] at he
    exact absurd he h.not_quote
  | c :: a, d :: b, _, _, he => by
    rw [List.flatMap_cons, List.flatMap_cons, List.append_assoc, List.append_assoc] at he
    obtain rfl := h.inj he
    obtain ⟨rfl, hst⟩ := flatMap_inj h (List.append_cancel_left he)
    exact ⟨rfl, hst⟩

/-- The character is written as itself, or a backslash comes first. -/
def Marked (q c : Char) (t : Text) : Prop :=
  t = [c] ∧ c ≠ q ∧ c ≠ '\\' ∨ ∃ u, t = '\\' :: u

theorem Marked.eq_of_plain {q c d : Char} {a s t : Text} (hd : Marked q d a) (hc : c ≠ '\\')
    (h : c :: s = a ++ t) : c = d := by
  rcases hd with ⟨rfl, -⟩ | ⟨u, rfl⟩
  · exact (List.cons.inj h).1
  · exact absurd (List.cons.inj h).1 hc

theorem Marked.not_quote {q c : Char} {a s t : Text} (hc : Marked q c a) (hq : '\\' ≠ q) :
    a ++ s ≠ q :: t := by
  intro h
  rcases hc with ⟨rfl, hne, -⟩ | ⟨u, rfl⟩
  · exact hne (List.cons.inj h).1
  · exact hq (List.cons.inj h).1

end MathTokens.Text
