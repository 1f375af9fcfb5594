import MathTokens.Proofs.Coverage

/-!
# Lines of a text

A line lies between newlines, or a newline and an end of the text. The line around a point is found from
the last newline before it and the first one after it; what is shown of it ends before its carriage
returns.
-/

namespace MathTokens.Text

/-- The offsets `i` and `j` bound a line of `t`: no newline is between them, and next to each is a
newline or an end of the text. -/
structure IsLine (t : Text) (i j : Nat) : Prop where
  le : i ≤ j
  le_length : j ≤ t.length
  free : '\n' ∉ t.slice i j
  starts : i = 0 ∨ t[i - 1]? = some '\n'
  ends : j = t.length ∨ t[j]? = some '\n'

/-- The text `line` is what a report shows of the line between `i` and `j`. -/
structure Displays (t : Text) (i j : Nat) (line : Text) : Prop where
  isLine : t.IsLine i j
  returns : ∃ n, t.slice i j = line ++ List.replicate n '\r'
  trimmed : line.getLast? ≠ some '\r'

/-! ## The end of a text -/

theorem dropEndWhile_append_cons {p : Char → Bool} {c : Char} (a b : Text) (hc : p c = false) :
    dropEndWhile p (a ++ c :: b) = a ++ c :: dropEndWhile p b := by
  unfold dropEndWhile
  rw [List.reverse_append, List.reverse_cons, List.append_assoc, List.dropWhile_append]
  by_cases h : (b.reverse.dropWhile p).isEmpty = true
  · rw [if_pos h, List.isEmpty_iff.mp h]
    simp [hc]
  · rw [if_neg h]
    simp

/-! ## The line around a point -/

theorem isLine_of_append {a line b : Text} (hline : '\n' ∉ line) (ha : a = [] ∨ a.getLast? = some '\n')
    (hb : b = [] ∨ b.head? = some '\n') : (a ++ line ++ b).IsLine a.length (a ++ line).length where
  le := by simp
  le_length := by simp
  free := by rwa [slice_append]
  starts := by
    refine ha.imp (fun h => by simp [h]) fun h => ?_
    have hpos : 0 < a.length := List.length_pos_iff.mpr fun hnil => by simp [hnil] at h
    rw [List.append_assoc, List.getElem?_append_left (by omega), ← List.getLast?_eq_getElem?, h]
  ends := by
    refine hb.imp (fun h => by simp [h]) fun h => ?_
    rw [List.getElem?_append_right (Nat.le_refl _), Nat.sub_self, ← List.head?_eq_getElem?, h]

theorem newline_not_mem_firstLine (t : Text) : '\n' ∉ t.firstLine := by
  intro h
  have hne := List.mem_takeWhile_imp h
  simp at hne

theorem newline_not_mem_lastLine (t : Text) : '\n' ∉ t.lastLine := by
  intro h
  have hne := List.mem_takeWhile_imp (List.mem_reverse.mp h)
  simp at hne

theorem exists_append_lastLine (t : Text) :
    ∃ a, t = a ++ t.lastLine ∧ a.length = t.lineStart ∧ (a = [] ∨ a.getLast? = some '\n') := by
  refine ⟨(t.reverse.dropWhile (· ≠ '\n')).reverse, ?_, by rw [List.length_reverse, lineStart], ?_⟩
  · rw [lastLine, ← List.reverse_append, List.takeWhile_append_dropWhile, List.reverse_reverse]
  · have hstop := List.head?_dropWhile_not (· ≠ '\n') t.reverse
    rw [List.getLast?_reverse, List.reverse_eq_nil_iff]
    generalize t.reverse.dropWhile (· ≠ '\n') = u at hstop ⊢
    cases u with
    | nil => exact .inl rfl
    | cons c u => simpa using hstop

theorem exists_firstLine_append (t : Text) :
    ∃ b, t = t.firstLine ++ b ∧ (b = [] ∨ b.head? = some '\n') := by
  refine ⟨t.dropWhile (· ≠ '\n'), List.takeWhile_append_dropWhile.symm, ?_⟩
  have hstop := List.head?_dropWhile_not (· ≠ '\n') t
  generalize t.dropWhile (· ≠ '\n') = u at hstop ⊢
  cases u with
  | nil => exact .inl rfl
  | cons c u => simpa using hstop

/-- The line around the point between two parts of a text. -/
theorem isLine_append (before after : Text) :
    (before ++ after).IsLine before.lineStart (before.length + after.firstLine.length) ∧
      (before ++ after).slice before.lineStart (before.length + after.firstLine.length) =
        before.lastLine ++ after.firstLine := by
  obtain ⟨a, hbefore, hlength, ha⟩ := exists_append_lastLine before
  obtain ⟨b, hafter, hb⟩ := exists_firstLine_append after
  have hfree : '\n' ∉ before.lastLine ++ after.firstLine := by
    rw [List.mem_append, not_or]
    exact ⟨newline_not_mem_lastLine before, newline_not_mem_firstLine after⟩
  have htext : before ++ after = a ++ (before.lastLine ++ after.firstLine) ++ b := by
    rw [List.append_assoc, List.append_assoc, ← hafter, ← List.append_assoc, ← hbefore]
  have hstop : before.length + after.firstLine.length =
      (a ++ (before.lastLine ++ after.firstLine)).length := by
    rw [← List.append_assoc, ← hbefore, List.length_append]
  rw [← hlength, hstop, htext, slice_append]
  exact ⟨isLine_of_append hfree ha hb, rfl⟩

/-- What is shown of a line is the line without the carriage returns at its end. -/
theorem displays_dropEndWhile {t : Text} {i j : Nat} (h : t.IsLine i j) :
    t.Displays i j (dropEndWhile (· = '\r') (t.slice i j)) := by
  obtain ⟨returns, hreturns, hsplit⟩ := exists_dropEndWhile_append (· = '\r') (t.slice i j)
  have hrun : returns = List.replicate returns.length '\r' :=
    List.eq_replicate_iff.mpr ⟨rfl, fun c hc => by simpa using hreturns c hc⟩
  refine ⟨h, ⟨returns.length, hrun ▸ hsplit⟩, fun hlast => ?_⟩
  have hstop := not_of_getLast?_dropEndWhile hlast
  simp at hstop

theorem lineAt_append (before after : Text) : (before ++ after).lineAt before.length =
    dropEndWhile (· = '\r') (before.lastLine ++ after.firstLine) := by
  have hpoint : (before ++ after).pointAt before.length = before.length := by
    unfold pointAt
    rw [if_neg (by omega)]
    simp
  rw [lineAt, hpoint, lineAround, List.take_left, List.drop_left]

end MathTokens.Text
