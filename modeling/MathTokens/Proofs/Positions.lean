import MathTokens.Token

/-!
# Positions from scratch

A stream computes a position from the last one it knew. Here a position is read off all the text
before it, and marks that were moved along that text say the same.
-/

namespace MathTokens

/-- The offset just after the last newline of `t`, or zero. -/
def Text.lineStart (t : Text) : Nat :=
  (t.reverse.dropWhile (· ≠ '\n')).length

/-- The position of the point that has the text `before` before it. -/
def Position.after (before : Text) : Position where
  line := 1 + before.count '\n'
  column := before.length - before.lineStart + 1
  offset := before.length

/-- The token that `l` makes when the text `before` stands before it. -/
def Token.after (before : Text) (l : Lexeme) : Token :=
  ⟨l.content, l.raw, .after before, .after (before ++ l.raw)⟩

namespace Text

theorem lineStart_add_length_lastLine (t : Text) : t.lineStart + t.lastLine.length = t.length := by
  have := congrArg List.length (List.takeWhile_append_dropWhile (p := (· ≠ '\n')) (l := t.reverse))
  simp only [List.length_append, List.length_reverse] at this
  simp only [lineStart, lastLine, List.length_reverse]
  omega

theorem lineStart_le (t : Text) : t.lineStart ≤ t.length := by
  have := lineStart_add_length_lastLine t
  omega

theorem lineStart_of_not_mem {t : Text} (h : '\n' ∉ t) : t.lineStart = 0 := by
  have hl : t.lastLine = t := by simpa [lastLine] using lastLine_append_of_not_mem (a := []) h
  have := lineStart_add_length_lastLine t
  rw [hl] at this
  omega

end Text

theorem LineMark.pass_start (before : Text) :
    LineMark.start.pass before = ⟨1 + before.count '\n', before.lineStart, before.length⟩ := by
  have := before.lineStart_add_length_lastLine
  simp only [pass, start, Nat.zero_add, mk.injEq, and_true, true_and]
  split
  · omega
  · next h => exact (Text.lineStart_of_not_mem h).symm

theorem LineMark.position_pass_start (before : Text) :
    (LineMark.start.pass before).position = .after before := by
  rw [pass_start]; rfl

theorem Token.ofLexeme_pass_start (before : Text) (l : Lexeme) :
    Token.ofLexeme (LineMark.start.pass before) l = .after before l := by
  simp only [ofLexeme, after, ← LineMark.pass_append, LineMark.position_pass_start]

end MathTokens
