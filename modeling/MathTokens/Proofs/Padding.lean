import MathTokens.Proofs.Gaps
import MathTokens.Proofs.ScanningBack

/-!
# Padding in strings

The value of a string is what is left of its text without the blank characters at both ends. There is
one such value for each text, so padding put around a text does not change it, and a value has no
padding left to lose. Between its quotes a string has its value and padding, and nothing else.
-/

namespace MathTokens

namespace Text

/-- Every character is blank, so the text can be padding. -/
def IsPadding (t : Text) : Prop :=
  ∀ c ∈ t, isBlank c

/-- The text is empty, or no blank character is at either end of it. -/
structure IsTrimmed (t : Text) : Prop where
  head : ∀ c, t.head? = some c → isBlank c = false
  last : ∀ c, t.getLast? = some c → isBlank c = false

variable {p q t v : Text}

theorem IsPadding.append (hp : IsPadding p) (hq : IsPadding q) : IsPadding (p ++ q) :=
  List.forall_mem_append.mpr ⟨hp, hq⟩

/-! ## Trimming -/

theorem trim_of_padding (hp : IsPadding p) : p.trim = [] := by
  rw [trim, List.dropWhile_eq_nil_iff.mpr hp]
  rfl

theorem trim_eq (hp : IsPadding p) (hv : v.IsTrimmed) (hq : IsPadding q) : (p ++ v ++ q).trim = v := by
  cases v with
  | nil =>
    rw [List.append_nil]
    exact trim_of_padding (hp.append hq)
  | cons c v =>
    have hhead : ∀ d, (c :: v ++ q).head? = some d → isBlank d = false := fun d hd => hv.head d hd
    rw [trim, List.append_assoc, dropWhile_append_of_stop hp hhead, dropEndWhile_append_of_stop hv.last hq]

theorem isTrimmed_trim (t : Text) : t.trim.IsTrimmed where
  head c hc := by
    obtain ⟨s, -, hs⟩ := exists_dropEndWhile_append isBlank (t.dropWhile isBlank)
    have hstop := List.head?_dropWhile_not isBlank t
    rw [hs, ← trim, List.head?_append, hc] at hstop
    exact hstop
  last c hc := not_of_getLast?_dropEndWhile hc

theorem exists_padding (t : Text) : ∃ p q, IsPadding p ∧ IsPadding q ∧ t = p ++ t.trim ++ q := by
  obtain ⟨q, hq, hsplit⟩ := exists_dropEndWhile_append isBlank (t.dropWhile isBlank)
  refine ⟨t.takeWhile isBlank, q, fun c hc => List.mem_takeWhile_imp hc, hq, ?_⟩
  rw [trim, List.append_assoc, ← hsplit, List.takeWhile_append_dropWhile]

theorem trim_padded (v : Text) (hp : IsPadding p) (hq : IsPadding q) : (p ++ v ++ q).trim = v.trim := by
  obtain ⟨p', q', hp', hq', hv⟩ := exists_padding v
  calc (p ++ v ++ q).trim = (p ++ p' ++ v.trim ++ (q' ++ q)).trim := by
        conv_lhs => rw [hv]
        simp only [List.append_assoc]
    _ = v.trim := trim_eq (hp.append hp') (isTrimmed_trim v) (hq'.append hq)

theorem trim_trim (t : Text) : t.trim.trim = t.trim := by
  have hnil : IsPadding [] := by simp [IsPadding]
  have h := trim_eq hnil (isTrimmed_trim t) hnil
  rwa [List.nil_append, List.append_nil] at h

theorem quote_not_mem_of_padding (hp : IsPadding p) : quote ∉ p :=
  fun hq => absurd (hp quote hq) (by decide)

end Text

/-! ## Strings -/

theorem Stands.string_eq {l : Lexeme} {rest value : Text} (h : Stands l rest) (hl : l.content = .string value) :
    ∃ inner : Text, l.raw = quote :: inner ++ [quote] ∧ value = inner.trim := by
  cases h with
  | string => exact ⟨_, rfl, (Content.string.inj hl).symm⟩
  | _ => cases hl

/-- **Padding.** A text between quotes is one string with the trimmed text as its value, however it is
padded. Every string that is read is its value between quotes, with padding around it, and the value is
trimmed. Trimming twice is trimming once. -/
theorem strings_ignore_padding :
    (∀ p v q : Text, p.IsPadding → q.IsPadding → quote ∉ v →
      let source := quote :: (p ++ v ++ q) ++ [quote]
      Token.listOf source = .ok [⟨.string v.trim, source, .after [], .after source⟩]) ∧
    (∀ source n t (value : Text), .token t ∈ ((Stream.ofText source).run n).1 → t.content = .string value →
      ∃ p q : Text, p.IsPadding ∧ q.IsPadding ∧ t.raw = quote :: (p ++ value ++ q) ++ [quote] ∧
        value.IsTrimmed) ∧
    ∀ t : Text, t.trim.trim = t.trim := by
  refine ⟨?_, ?_, Text.trim_trim⟩
  · intro p v q hp hq hv source
    have hfree : quote ∉ p ++ v ++ q := by
      simp [Text.quote_not_mem_of_padding hp, Text.quote_not_mem_of_padding hq, hv]
    rw [← Text.trim_padded v hp hq]
    exact listOf_of_stands (.string hfree)
  · intro source n t value ht hvalue
    obtain ⟨_, hc, -⟩ := Stream.course_run source n
    obtain ⟨rest, hstands⟩ := hc.occurs t ht
    obtain ⟨inner, hraw, rfl⟩ := hstands.string_eq hvalue
    obtain ⟨p, q, hp, hq, hinner⟩ := inner.exists_padding
    exact ⟨p, q, hp, hq, hinner ▸ hraw, inner.isTrimmed_trim⟩

/-- A value with a gap in it between a no-break space and a newline, and what the string is made of. -/
theorem strings_ignore_padding_inner_gap :
    let p : Text := ['\u00a0']
    let v : Text := ['a', ' ', 'b', '\t']
    let q : Text := ['\n']
    let source := quote :: (p ++ v ++ q) ++ [quote]
    let t : Token := ⟨.string ['a', ' ', 'b'], source, ⟨1, 1, 0⟩, ⟨2, 2, 8⟩⟩
    p.IsPadding ∧ q.IsPadding ∧ quote ∉ v ∧ Token.listOf source = .ok [t] ∧
      .token t ∈ ((Stream.ofText source).run 1).1 ∧
      ∃ p q : Text, p.IsPadding ∧ q.IsPadding ∧ t.raw = quote :: (p ++ ['a', ' ', 'b'] ++ q) ++ [quote] ∧
        Text.IsTrimmed ['a', ' ', 'b'] := by
  intro p v q source t
  have hp : p.IsPadding := List.forall_mem_singleton.mpr (by decide)
  have hq : q.IsPadding := List.forall_mem_singleton.mpr (by decide)
  have hv : quote ∉ v := by decide
  have ht : .token t ∈ ((Stream.ofText source).run 1).1 := by decide +kernel
  exact ⟨hp, hq, hv, strings_ignore_padding.1 p v q hp hq hv, ht,
    strings_ignore_padding.2.1 source 1 t _ ht rfl⟩

end MathTokens
