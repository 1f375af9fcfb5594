import MathTokens.Text.Line

/-!
# Positions

A position names a point of a text three times over: by line and column, counted from one, and by
offset, counted from zero. Positions are computed along a text from one known point to the next, so
that no part of it is searched twice.
-/

namespace MathTokens

structure Position where
  line : Nat
  column : Nat
  offset : Nat
deriving DecidableEq, Repr

/-- A point of a text whose line is known: the number of the line, the offset at which the line
starts, and the offset of the point. -/
structure LineMark where
  line : Nat
  lineStart : Nat
  offset : Nat
deriving DecidableEq, Repr

namespace LineMark

def start : LineMark := ⟨1, 0, 0⟩

def pass (m : LineMark) (passed : Text) : LineMark where
  line := m.line + passed.count '\n'
  lineStart :=
    if '\n' ∈ passed then m.offset + (passed.length - passed.lastLine.length) else m.lineStart
  offset := m.offset + passed.length

theorem pass_append (m : LineMark) (a b : Text) : m.pass (a ++ b) = (m.pass a).pass b := by
  have ha := Text.length_lastLine_le a
  have hb := Text.length_lastLine_le b
  simp only [pass, List.count_append, List.length_append, List.mem_append, mk.injEq]
  refine ⟨by omega, ?_, by omega⟩
  by_cases h : '\n' ∈ b
  · rw [Text.lastLine_append_of_mem h, if_pos (.inr h), if_pos h]
    omega
  · rw [Text.lastLine_append_of_not_mem h, List.length_append, if_neg h]
    simp only [h, or_false]
    split <;> omega

def position (m : LineMark) : Position where
  line := m.line
  column := m.offset - m.lineStart + 1
  offset := m.offset

end LineMark

end MathTokens
