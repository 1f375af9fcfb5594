import Mathlib.Data.List.TakeWhile
import MathTokens.Decimal

/-!
# The grammar of decimals

`Spells t d` says that the text `t` spells the decimal `d`. Reading accepts exactly the texts that
spell a decimal, and gives the decimal that they spell.
-/

namespace MathTokens

def Digits (t : Text) : Prop :=
  ∀ c ∈ t, c.isDigit

namespace Decimal

inductive SpellsUnsigned (negative : Bool) : Text → Decimal → Prop
  | whole {a} : Digits a → a ≠ [] → SpellsUnsigned negative a ⟨negative, ofDigits a, 0⟩
  | pointed {a b} : Digits a → Digits b → a ≠ [] →
      SpellsUnsigned negative (a ++ '.' :: b) ⟨negative, ofDigits (a ++ b), b.length⟩
  | fraction {b} : Digits b → b ≠ [] →
      SpellsUnsigned negative ('.' :: b) ⟨negative, ofDigits b, b.length⟩

inductive Spells : Text → Decimal → Prop
  | plain {t d} : SpellsUnsigned false t d → Spells t d
  | minus {t d} : SpellsUnsigned true t d → Spells ('-' :: t) d

end Decimal

/-- An optional minus sign, then digits with an optional point and fraction, or a point and digits. -/
def IsDecimal (t : Text) : Prop :=
  ∃ d, Decimal.Spells t d

namespace Decimal

/-! ## The characters of a decimal -/

theorem SpellsUnsigned.ne_nil {n : Bool} {t : Text} {d : Decimal} (h : SpellsUnsigned n t d) : t ≠ [] := by
  cases h with
  | whole _ ha => exact ha
  | pointed _ _ ha => simp
  | fraction => simp

theorem SpellsUnsigned.chars {n : Bool} {t : Text} {d : Decimal} (h : SpellsUnsigned n t d) :
    ∀ c ∈ t, c.isDigit ∨ c = '.' := by
  cases h with
  | whole ha => exact fun c hc => .inl (ha c hc)
  | pointed ha hb =>
    intro c hc
    rcases List.mem_append.mp hc with hc | hc
    · exact .inl (ha c hc)
    · rcases List.mem_cons.mp hc with hc | hc
      · exact .inr hc
      · exact .inl (hb c hc)
  | fraction hb =>
    intro c hc
    rcases List.mem_cons.mp hc with hc | hc
    · exact .inr hc
    · exact .inl (hb c hc)

theorem Spells.chars {t : Text} {d : Decimal} (h : Spells t d) :
    ∃ c run, t = c :: run ∧ (c = '-' ∨ c.isDigit ∨ c = '.') ∧ ∀ x ∈ run, x.isDigit ∨ x = '.' := by
  cases h with
  | @plain t d h =>
    cases t with
    | nil => exact absurd rfl h.ne_nil
    | cons c run =>
      exact ⟨c, run, rfl, .inr (h.chars c (by simp)), fun x hx => h.chars x (by simp [hx])⟩
  | @minus t d h => exact ⟨'-', t, rfl, .inl rfl, h.chars⟩

theorem Spells.chars_minus {t : Text} {d : Decimal} (h : Spells ('-' :: t) d) :
    t ≠ [] ∧ ∀ c ∈ t, c.isDigit ∨ c = '.' := by
  cases h with
  | plain h =>
    have := h.chars '-' (by simp)
    simp at this
  | minus h => exact ⟨h.ne_nil, h.chars⟩

/-! ## Reading -/

theorem readUnsigned?_eq_some_iff {n : Bool} {t : Text} {d : Decimal} :
    readUnsigned? n t = some d ↔ SpellsUnsigned n t d := by
  constructor
  · intro h
    have split := List.takeWhile_append_dropWhile (p := Char.isDigit) (l := t)
    have whole : Digits (t.takeWhile Char.isDigit) := fun c hc => List.mem_takeWhile_imp hc
    unfold readUnsigned? at h
    generalize t.takeWhile Char.isDigit = a at h split whole
    generalize t.dropWhile Char.isDigit = b at h split
    subst split
    dsimp only at h
    split at h
    · split at h
      · cases h
      · next ha =>
        cases h
        rw [List.append_nil]
        exact .whole whole (by simpa using ha)
    · next c fraction =>
      split at h
      · next hc =>
        obtain ⟨rfl, hf, hne⟩ := hc
        have hf : Digits fraction := by simpa [Digits] using hf
        cases h
        cases a with
        | nil => exact .fraction hf (by simpa using hne)
        | cons x a => exact .pointed whole hf (by simp)
      · cases h
  · intro h
    unfold readUnsigned?
    cases h with
    | whole ha hne => simp [List.takeWhile_eq_self_iff.mpr ha, List.dropWhile_eq_nil_iff.mpr ha, hne]
    | @pointed a b ha hb hne =>
      have stop : ∀ c, ('.' :: b).head? = some c → c.isDigit = false := by simp
      have hb : b.all Char.isDigit := by simpa [Digits] using hb
      simp [Text.takeWhile_append_of_stop ha stop, Text.dropWhile_append_of_stop ha stop, hne, hb]
    | @fraction b hb hne =>
      have hb : b.all Char.isDigit := by simpa [Digits] using hb
      simp [hne, hb]

theorem read?_eq_some_iff {t : Text} {d : Decimal} : read? t = some d ↔ Spells t d := by
  constructor
  · intro h
    unfold read? at h
    split at h
    · exact .minus (readUnsigned?_eq_some_iff.mp h)
    · exact .plain (readUnsigned?_eq_some_iff.mp h)
  · intro h
    cases h with
    | plain h =>
      unfold read?
      split
      · have := h.chars '-' (by simp)
        simp at this
      · exact readUnsigned?_eq_some_iff.mpr h
    | minus h => exact readUnsigned?_eq_some_iff.mpr h

theorem read?_eq_none_iff {t : Text} : read? t = none ↔ ¬IsDecimal t := by
  rw [Option.eq_none_iff_forall_ne_some, IsDecimal, not_exists]
  exact forall_congr' fun d => not_congr read?_eq_some_iff

end Decimal

end MathTokens
