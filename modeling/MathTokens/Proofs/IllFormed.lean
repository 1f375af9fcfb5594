import MathTokens.Proofs.Decoding

/-!
# What a fault says

A fault names the reason why no character stands at its position, and counts the bytes there that may
still begin one. A character that is pending can be completed in some way, so the bytes read of it begin
one, and the next byte is refused only if no character has these bytes and then this one.
-/

namespace MathTokens.Utf8

/-- The bytes are some of a character's, the first ones, but not all. -/
def Begins (start : Bytes) : Prop :=
  start ≠ [] ∧ ∃ c, start <+: encodeChar c ∧ start ≠ encodeChar c

/-- Why bytes begin with no character, and how many of them may still begin one. -/
inductive IllFormed : Bytes → Reason → Nat → Prop
  | invalidStart {b more} : (∀ c, ¬[b] <+: encodeChar c) → IllFormed (b :: more) .invalidStart 1
  | invalidContinuation {start b more} : Begins start → (∀ c, ¬start ++ [b] <+: encodeChar c) →
      IllFormed (start ++ b :: more) .invalidContinuation start.length
  | unexpectedEnd {start} : Begins start → IllFormed start .unexpectedEnd start.length

/-- The bytes `start` leave the character `p` pending. -/
inductive Reaches : Bytes → Pending → Prop
  | start {b p} : start? b = some p → p.tails ≠ 0 → Reaches [b] p
  | step {start p b q} : Reaches start p → p.continue? b = some q → q.tails ≠ 0 →
      Reaches (start ++ [b]) q

section
variable {position : Nat} {start bs : Bytes} {p q : Pending} {b : UInt8} {f : Fault}

theorem continue?_eq_some (h : p.continue? b = some q) :
    q.first = p.first ∧ q.read = p.read + 1 ∧ q.low = 0x80 ∧ q.high = 0xbf := by
  unfold Pending.continue? at h
  dsimp only at h
  split at h
  · cases h
    exact ⟨rfl, rfl, rfl, rfl⟩
  · cases h

theorem Reaches.tails (h : Reaches start p) : p.tails ≠ 0 := by
  cases h with
  | start _ htails => exact htails
  | step _ _ htails => exact htails

theorem Reaches.first_and_read (h : Reaches start p) :
    start.head? = some p.first ∧ start.length = p.read := by
  induction h with
  | start h =>
    obtain ⟨hfirst, hread, -⟩ := start?_eq_some h
    rw [hfirst, hread]
    exact ⟨rfl, rfl⟩
  | step _ hb _ ih =>
    obtain ⟨hfirst, hread, -⟩ := continue?_eq_some hb
    rw [List.head?_append, ih.1, List.length_append, ih.2, hfirst, hread]
    exact ⟨rfl, rfl⟩

theorem Reaches.range (h : Reaches start p) : p.low ≤ p.high ∧ p.high ≤ 0xbf := by
  cases h with
  | start h => exact (start?_eq_some h).2.2.2
  | step _ hb =>
    obtain ⟨-, -, hlow, hhigh⟩ := continue?_eq_some hb
    omega

theorem Reaches.decodeFrom_eq (h : Reaches start p) (position : Nat) (bs : Bytes) :
    decodeFrom position none (start ++ bs) = decodeFrom position (some p) bs := by
  induction h generalizing bs with
  | start h htails => exact decodeFrom_start h htails
  | step _ hb htails ih =>
    rw [List.append_assoc, ih, List.singleton_append, decodeFrom, hb]
    simp only [htails, if_false]

/-- With the least byte that may come next, again and again, a pending character is completed. -/
theorem Reaches.exists_prefix (h : Reaches start p) : ∃ b c, start ++ [b] <+: encodeChar c := by
  induction hn : p.tails using Nat.strongRecOn generalizing start p with
  | ind n ih =>
    obtain ⟨hlow, hhigh⟩ := h.range
    have hcontinue : p.continue? (byte p.low) =
        some ⟨p.first, p.read + 1, p.value * 0x40 + (p.low - 0x80), p.tails - 1, 0x80, 0xbf⟩ := by
      unfold Pending.continue?
      rw [toNat_byte (by omega)]
      exact if_pos ⟨Nat.le_refl _, hlow⟩
    by_cases htails : p.tails - 1 = 0
    · -- the character is complete, so these are its bytes
      have hdecode : decode (start ++ [byte p.low]) =
          .ok [Char.ofNat (p.value * 0x40 + (p.low - 0x80))] := by
        rw [decode, h.decodeFrom_eq, decodeFrom, hcontinue]
        simp only [htails, if_true]
        rfl
      have hencode := decode_eq_ok_iff.mp hdecode
      rw [encode_singleton] at hencode
      exact ⟨_, _, [], by rw [List.append_nil, hencode]⟩
    · have hfewer : p.tails - 1 < n := by
        have := h.tails
        omega
      obtain ⟨b, c, hc⟩ := ih _ hfewer (h.step hcontinue htails) rfl
      exact ⟨_, c, (List.prefix_append _ _).trans hc⟩

theorem Reaches.begins (h : Reaches start p) : Begins start := by
  obtain ⟨b, c, hc⟩ := h.exists_prefix
  refine ⟨?_, c, (List.prefix_append _ _).trans hc, ?_⟩
  · rintro rfl
    cases h.first_and_read.1
  · intro heq
    have hlength := hc.length_le
    rw [List.length_append, ← heq, List.length_singleton] at hlength
    omega

theorem not_prefix_of_error (h : ∀ more, ∃ f, decodeFrom 0 none (start ++ more) = .error f) (c : Char) :
    ¬start <+: encodeChar c := by
  rintro ⟨more, hmore⟩
  obtain ⟨f, hf⟩ := h more
  have hd := decodeFrom_encode [c] 0
  rw [encode_singleton, ← hmore, hf] at hd
  cases hd

theorem map_eq_error {g : Text → Text} {r : Except Fault Text} (h : r.map g = .error f) :
    r = .error f := by
  cases r with
  | error => exact h
  | ok => cases h

theorem position_le_of_error {pending? : Option Pending}
    (h : decodeFrom position pending? bs = .error f) : position ≤ f.position := by
  induction bs generalizing position pending? with
  | nil =>
    cases pending? with
    | none => cases h
    | some p =>
      obtain rfl := Except.error.inj h
      exact Nat.le_refl _
  | cons b bs ih =>
    cases pending? with
    | none =>
      rw [decodeFrom] at h
      split at h
      · obtain rfl := Except.error.inj h
        exact Nat.le_refl _
      split at h
      · exact Nat.le_of_succ_le (ih (map_eq_error h))
      · exact ih h
    | some p =>
      rw [decodeFrom] at h
      split at h
      · obtain rfl := Except.error.inj h
        exact Nat.le_refl _
      split at h
      · exact Nat.le_trans (Nat.le_add_right ..) (ih (map_eq_error h))
      · exact ih h

theorem Reaches.illFormed (h : Reaches start p) (hf : decodeFrom position (some p) bs = .error f)
    (hposition : f.position = position) :
    IllFormed (start ++ bs) f.reason f.length ∧ f.first = p.first := by
  induction bs generalizing start p with
  | nil =>
    obtain rfl := Except.error.inj hf
    rw [List.append_nil, ← h.first_and_read.2]
    exact ⟨.unexpectedEnd h.begins, rfl⟩
  | cons b bs ih =>
    rw [decodeFrom] at hf
    split at hf
    · next hb =>
      obtain rfl := Except.error.inj hf
      dsimp only
      rw [← h.first_and_read.2]
      refine ⟨.invalidContinuation h.begins (not_prefix_of_error fun more => ?_), rfl⟩
      rw [List.append_assoc, h.decodeFrom_eq, List.singleton_append, decodeFrom, hb]
      exact ⟨_, rfl⟩
    · next q hq =>
      split at hf
      · -- a fault behind a complete character would lie further on
        have hle := position_le_of_error (map_eq_error hf)
        have hread := (continue?_eq_some hq).2.1
        omega
      · next htails =>
        obtain ⟨hill, hfirst⟩ := ih (h.step hq htails) hf
        rw [List.append_assoc, List.singleton_append] at hill
        exact ⟨hill, hfirst.trans (continue?_eq_some hq).1⟩

theorem illFormed_of_error (h : decodeFrom position none bs = .error f) (hposition : f.position = position) :
    IllFormed bs f.reason f.length ∧ bs.head? = some f.first := by
  cases bs with
  | nil => cases h
  | cons b bs =>
    rw [decodeFrom] at h
    split at h
    · next hb =>
      obtain rfl := Except.error.inj h
      refine ⟨.invalidStart (not_prefix_of_error fun more => ?_), rfl⟩
      rw [List.singleton_append, decodeFrom, hb]
      exact ⟨_, rfl⟩
    · next p hp =>
      split at h
      · have hle := position_le_of_error (map_eq_error h)
        omega
      · next htails =>
        obtain ⟨hill, hfirst⟩ := (Reaches.start hp htails).illFormed h hposition
        exact ⟨hill, by rw [hfirst, (start?_eq_some hp).1]; rfl⟩

/-- **What a fault says.** At its position stands the byte that it names, and the bytes from there on
begin no character, for the reason and after the length that it gives. -/
theorem illFormed_of_decode_eq_error (h : decode bs = .error f) :
    IllFormed (bs.drop f.position) f.reason f.length ∧ bs[f.position]? = some f.first := by
  rcases text_or_faultAt 0 bs with ⟨t, rfl⟩ | ⟨t, rest, rfl, g, hg, hposition⟩
  · rw [decode_encode] at h
    cases h
  rw [decode, decodeFrom_encode_append, hg] at h
  obtain rfl : g = f := Except.error.inj h
  rw [← List.head?_drop, hposition, Nat.zero_add, List.drop_left]
  exact illFormed_of_error hg hposition

end

end MathTokens.Utf8
