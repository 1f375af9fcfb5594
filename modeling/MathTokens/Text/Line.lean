import MathTokens.Text.Basic

/-!
# Lines

The line around a point of a text is what stands between the newlines next to it. Offsets may be any
integers here: a negative one counts from the end of the text, and what still lies outside is moved
to the nearer end.
-/

namespace MathTokens.Text

def firstLine (t : Text) : Text :=
  t.takeWhile (· ≠ '\n')

def lastLine (t : Text) : Text :=
  (t.reverse.takeWhile (· ≠ '\n')).reverse

theorem length_lastLine_le (t : Text) : (lastLine t).length ≤ t.length := by
  have := (List.takeWhile_prefix (· ≠ '\n') (l := t.reverse)).length_le
  simpa [lastLine] using this

theorem lastLine_append_of_mem {a b : Text} (h : '\n' ∈ b) : lastLine (a ++ b) = lastLine b := by
  unfold lastLine
  rw [List.reverse_append, takeWhile_append_of_mem (c := '\n') (by simpa using h) (by simp)]

theorem lastLine_append_of_not_mem {a b : Text} (h : '\n' ∉ b) :
    lastLine (a ++ b) = lastLine a ++ b := by
  unfold lastLine
  rw [List.reverse_append, List.takeWhile_append_of_pos, List.reverse_append, List.reverse_reverse]
  intro c hc
  have : c ≠ '\n' := fun e => h (by simpa [e] using hc)
  simpa using this

/-- The point of `t` that an integer offset means. A negative one is counted from the end. -/
def pointAt (t : Text) (offset : Int) : Nat :=
  if offset < 0 then (offset + t.length).toNat else min offset.toNat t.length

/-- The line of `t` around the point `n`, its carriage returns at the end left out. The newline
that ends a line counts as a point of it. -/
def lineAround (t : Text) (n : Nat) : Text :=
  dropEndWhile (· = '\r') (lastLine (t.take n) ++ firstLine (t.drop n))

def lineAt (t : Text) (offset : Int) : Text :=
  lineAround t (pointAt t offset)

end MathTokens.Text
