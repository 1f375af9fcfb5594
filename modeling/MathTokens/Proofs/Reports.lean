import MathTokens.Proofs.QuoteStates
import MathTokens.Proofs.SourceLines

/-!
# Reports on open strings

A report is drawn from a column, from the line around an offset, and from what is left of that line
behind the column. For a text that cannot be read the three belong together: the quote at fault cuts its
line in two, the column counts the first part, and there is a caret under the quote and under every
character of the second part.
-/

namespace MathTokens

/-- The quote at the offset `p` begins a string that is not closed. -/
structure OpensString (source : Text) (p : Nat) : Prop where
  lastQuote : LastQuote source p
  outside : Within.after (source.take p) = .nothing

/-- What stands in front of the line that is shown for a position. -/
def Position.heading (place : Position) : Text :=
  Text.ofNat place.line ++ " | ".toList

/-- The first bar of `row` is at the index `n`. -/
structure BarAt (n : Nat) (row : Text) : Prop where
  at_index : row[n]? = some '|'
  first : '|' ∉ row.take n

/-- Five rows that show the line of `source` around `place` and underline it from the quote at `place` to
its end. -/
structure Underlines (source file : Text) (place : Position)
    (message location blank excerpt carets : Text) : Prop where
  message_eq : message = "error: unterminated string literal".toList
  location_eq : location = List.replicate (Text.ofNat place.line).length ' ' ++ "--> ".toList ++ file ++
    ':' :: Text.ofNat place.line ++ ':' :: Text.ofNat place.column
  bars : ∃ n, ∀ row ∈ [blank, excerpt, carets], BarAt n row
  shows : ∃ i j shown, source.Displays i j shown ∧ i ≤ place.offset ∧ place.offset < j ∧
    excerpt = place.heading ++ shown ∧ shown[place.column - 1]? = some quote
  length_eq : carets.length = excerpt.length
  carets_iff : ∀ k, carets[k]? = some '^' ↔
    place.heading.length + (place.column - 1) ≤ k ∧ k < excerpt.length

/-! ## Rows -/

section
variable {a b : Text} {c : Char}

theorem barAt_append (ha : '|' ∉ a) : BarAt (a.length + 1) (a ++ ' ' :: '|' :: b) where
  at_index := by simp
  first := by simp [List.take_append, List.take_of_length_le, ha]

theorem getElem?_append_replicate_iff (ha : c ∉ a) (n k : Nat) :
    (a ++ List.replicate n c)[k]? = some c ↔ a.length ≤ k ∧ k < a.length + n := by
  by_cases hk : a.length ≤ k
  · rw [List.getElem?_append_right hk, List.getElem?_replicate]
    by_cases hn : k - a.length < n
    · simp [hn]
      omega
    · simp [hn]
      omega
  · have hnot : a[k]? ≠ some c := fun h => ha (List.mem_of_getElem? h)
    rw [List.getElem?_append_left (by omega)]
    simp [hk, hnot]

theorem not_mem_ofNat (hc : c.isDigit = false) (n : Nat) : c ∉ Text.ofNat n := by
  intro h
  simp [Text.isDigit_of_mem_ofNat c h] at hc

theorem not_mem_gutter (hc : c ≠ ' ') (n : Nat) : c ∉ List.replicate n ' ' := by
  intro h
  exact hc (List.eq_of_mem_replicate h)

theorem Text.ofInt_natCast (n : Nat) : ofInt n = ofNat n := by
  rw [ofInt, if_neg (by omega), Int.natAbs_natCast]

end

/-! ## The line at fault -/

section
variable (before tail file : Text)

theorem Position.column_after : (Position.after before).column = before.lastLine.length + 1 := by
  have hlength := before.lineStart_add_length_lastLine
  change before.length - before.lineStart + 1 = before.lastLine.length + 1
  omega

/-- What is underlined behind the quote. -/
def underlined : Text :=
  Text.dropEndWhile (· = '\r') tail.firstLine

theorem Malformed.sourceLine_unclosed : (unclosed (before ++ quote :: tail) before).sourceLine =
    before.lastLine ++ quote :: underlined tail := by
  have hline : Text.firstLine (quote :: tail) = quote :: tail.firstLine := by
    rw [Text.firstLine, List.takeWhile_cons, if_pos (by decide), Text.firstLine]
  rw [sourceLine]
  change (before ++ quote :: tail).lineAt before.length = _
  rw [Text.lineAt_append, hline, Text.dropEndWhile_append_cons _ _ (by decide), underlined]

theorem Malformed.caretCount_unclosed :
    (unclosed (before ++ quote :: tail) before).caretCount = (underlined tail).length + 1 := by
  have hcolumn : (unclosed (before ++ quote :: tail) before).place.column =
      ((before.lastLine.length + 1 : Nat) : Int) := congrArg Nat.cast (Position.column_after before)
  rw [caretCount, sourceLine_unclosed, hcolumn, List.length_append, List.length_cons]
  omega

theorem Malformed.reportLines_unclosed :
    let place := Position.after before
    let gutter := List.replicate (Text.ofNat place.line).length ' '
    (unclosed (before ++ quote :: tail) before).reportLines file =
      [ "error: unterminated string literal".toList,
        gutter ++ "--> ".toList ++ file ++ ':' :: Text.ofNat place.line ++ ':' :: Text.ofNat place.column,
        gutter ++ " |".toList,
        place.heading ++ (before.lastLine ++ quote :: underlined tail),
        gutter ++ " | ".toList ++ List.replicate before.lastLine.length ' ' ++
          List.replicate ((underlined tail).length + 1) '^' ] := by
  intro place gutter
  have hline : Text.ofInt (unclosed (before ++ quote :: tail) before).place.line =
      Text.ofNat place.line := Text.ofInt_natCast _
  have hcolumn : Text.ofInt (unclosed (before ++ quote :: tail) before).place.column =
      Text.ofNat place.column := Text.ofInt_natCast _
  have hindent : ((unclosed (before ++ quote :: tail) before).place.column - 1).toNat =
      before.lastLine.length := by
    change (((Position.after before).column : Int) - 1).toNat = _
    rw [Position.column_after]
    omega
  rw [reportLines, hline, hcolumn, hindent, sourceLine_unclosed, caretCount_unclosed]
  rfl

theorem Malformed.newline_not_mem_reportLines (hfile : '\n' ∉ file) :
    ∀ row ∈ (unclosed (before ++ quote :: tail) before).reportLines file, '\n' ∉ row := by
  have hnumber (n : Nat) : '\n' ∉ Text.ofNat n := not_mem_ofNat (by decide) n
  have hgutter (n : Nat) : '\n' ∉ List.replicate n ' ' := not_mem_gutter (by decide) n
  have hrest : '\n' ∉ underlined tail :=
    fun h => Text.newline_not_mem_firstLine tail (Text.dropEndWhile_subset _ _ h)
  have hlast := Text.newline_not_mem_lastLine before
  rw [reportLines_unclosed]
  simp [Position.heading, hnumber, hgutter, hrest, hlast, hfile, quote]

end

/-- The line at fault is shown up to its carriage returns, and its quote stands at the column. -/
theorem displays_unclosed (before tail : Text) :
    ∃ i j, (before ++ quote :: tail).Displays i j (before.lastLine ++ quote :: underlined tail) ∧
      i ≤ before.length ∧ before.length < j := by
  obtain ⟨hline, hslice⟩ := Text.isLine_append before (quote :: tail)
  have hshown := Text.displays_dropEndWhile hline
  rw [hslice, ← Text.lineAt_append] at hshown
  have hsource := Malformed.sourceLine_unclosed before tail
  change (before ++ quote :: tail).lineAt before.length = _ at hsource
  rw [hsource] at hshown
  refine ⟨_, _, hshown, before.lineStart_le, ?_⟩
  simp [Text.firstLine, quote]

/-- A quote cuts its line in two, and the rows made of the two parts underline the second. -/
theorem underlines_unclosed (before tail file : Text) :
    ∃ message location blank excerpt carets,
      (Malformed.unclosed (before ++ quote :: tail) before).reportLines file =
        [message, location, blank, excerpt, carets] ∧
      Underlines (before ++ quote :: tail) file (.after before) message location blank excerpt carets := by
  have hcolumn := Position.column_after before
  have hheading : (Position.after before).heading.length =
      (Text.ofNat (Position.after before).line).length + 3 := by
    simp [Position.heading]
  refine ⟨_, _, _, _, _, Malformed.reportLines_unclosed before tail file, ?_⟩
  generalize hnumber : Text.ofNat (Position.after before).line = number at *
  have hgutter (more : Text) :
      BarAt (number.length + 1) (List.replicate number.length ' ' ++ ' ' :: '|' :: more) := by
    have hbar := barAt_append (b := more) (not_mem_gutter (c := '|') (by decide) number.length)
    rwa [List.length_replicate] at hbar
  have hfree : '|' ∉ number := hnumber ▸ not_mem_ofNat (by decide) _
  refine ⟨rfl, by rw [hnumber], ⟨number.length + 1, ?_⟩, ?_, ?_, ?_⟩
  · rw [Position.heading, hnumber]
    simp only [List.forall_mem_cons, List.append_assoc]
    exact ⟨hgutter [], barAt_append hfree, hgutter _, by simp⟩
  · obtain ⟨i, j, hshown, hi, hj⟩ := displays_unclosed before tail
    exact ⟨i, j, _, hshown, hi, hj, rfl, by simp [hcolumn]⟩
  · simp [hheading]
    omega
  · intro k
    rw [getElem?_append_replicate_iff (by simp)]
    simp [hheading, hcolumn]
    omega

/-- **Reports underline the open string.** The report on a text that cannot be read has five lines. They
show the line of the quote that opens the string, without carriage returns at its end, and the carets are
one run from under that quote to the end of what is shown. -/
theorem report_underlines_open_string {source file : Text} {e : Malformed}
    (he : Token.listOf source = .error e) (hfile : '\n' ∉ file) :
    ∃ p message location blank excerpt carets, OpensString source p ∧
      e.place = (Position.after (source.take p)).toPlace ∧
      (e.report file).splitOn '\n' = [message, location, blank, excerpt, carets] ∧
      Underlines source file (.after (source.take p)) message location blank excerpt carets := by
  obtain ⟨before, tail, rfl, htail, houtside, rfl⟩ := listOf_eq_error_iff.mp he
  obtain ⟨message, location, blank, excerpt, carets, hrows, hunder⟩ :=
    underlines_unclosed before tail file
  have htake : (before ++ quote :: tail).take before.length = before := List.take_left
  refine ⟨before.length, message, location, blank, excerpt, carets,
    ⟨lastQuote_append htail, by rwa [htake]⟩, by rw [htake]; rfl, ?_, by rwa [htake]⟩
  have hfree := Malformed.newline_not_mem_reportLines before tail file hfile
  rw [Malformed.report, List.splitOn_intercalate _ hfree (by simp [hrows]), hrows]

/-- A closed string goes over a line end, and the line with the open one ends in two carriage returns. -/
theorem report_underlines_open_string_returns :
    let source := ['"', 'a', '\r', '\n', '"', ' ', '"', '|', 'b', '\r', '\r', '\n', 'c']
    let e : Malformed := ⟨.unterminatedString, ⟨2, 3, 6⟩, source⟩
    Token.listOf source = .error e ∧ '\n' ∉ ['f'] ∧
      e.report ['f'] = ("error: unterminated string literal\n --> f:2:3\n  |\n" ++
        "2 | \" \"|b\n  |   ^^^").toList ∧
      ∃ p message location blank excerpt carets, OpensString source p ∧
        e.place = (Position.after (source.take p)).toPlace ∧
        (e.report ['f']).splitOn '\n' = [message, location, blank, excerpt, carets] ∧
        Underlines source ['f'] (.after (source.take p)) message location blank excerpt carets := by
  intro source e
  have he : Token.listOf source = .error e := by decide +kernel
  have hfile : '\n' ∉ ['f'] := by decide
  exact ⟨he, hfile, by decide +kernel, report_underlines_open_string he hfile⟩

end MathTokens
