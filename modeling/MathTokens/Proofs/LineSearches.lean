import MathTokens.Proofs.SourceLines

/-!
# Searching for a line

A point lies on one line, which is the longest text around it without a newline. Two searches find it for
any offset: one for the last newline before the offset, one for the first newline from it on. Far outside
the text the second search starts behind the end and finds nothing, as it does at the end itself.
-/

namespace MathTokens.Text

/-- An offset counted from the start of `t`. A negative one counts back from the end, to the start at
most; one beyond the end stays beyond it. -/
def fromStart (t : Text) (offset : Int) : Nat :=
  (if offset < 0 then offset + t.length else offset).toNat

/-- Where the search for the last newline before the offset lets the line start. -/
def searchedStart (t : Text) (offset : Int) : Nat :=
  ((List.range t.length).findRev? fun k => k < t.fromStart offset ∧ t[k]? = some '\n').elim 0 (· + 1)

/-- Where the search for the first newline from the offset on lets the line end. -/
def searchedStop (t : Text) (offset : Int) : Nat :=
  ((List.range t.length).find? fun k => t.fromStart offset ≤ k ∧ t[k]? = some '\n').getD t.length

/-- The offsets `i` and `j` bound a line of `t`, and the point `p` lies on it or at one of its ends. -/
structure IsLineAround (t : Text) (p : Int) (i j : Nat) : Prop where
  isLine : t.IsLine i j
  start_le : i ≤ p
  le_stop : p ≤ j

/-! ## One line for each point -/

section
variable {t : Text} {p : Int} {i j i' j' : Nat}

theorem mem_slice_iff {c : Char} : c ∈ t.slice i j ↔ ∃ k, i ≤ k ∧ k < j ∧ t[k]? = some c := by
  rw [slice, List.mem_iff_getElem?]
  constructor
  · intro h
    obtain ⟨k, hk⟩ := h
    rw [List.getElem?_drop, List.getElem?_take] at hk
    split at hk
    · next hlt => exact ⟨i + k, by omega, hlt, hk⟩
    · cases hk
  · intro h
    obtain ⟨k, hi, hj, hk⟩ := h
    refine ⟨k - i, ?_⟩
    rw [List.getElem?_drop, List.getElem?_take, Nat.add_sub_cancel' hi, if_pos hj, hk]

theorem IsLineAround.covers (h : t.IsLineAround p i j) (hi : i' ≤ p) (hj : p ≤ j') (hlength : j' ≤ t.length)
    (hfree : '\n' ∉ t.slice i' j') : i ≤ i' ∧ j' ≤ j := by
  have hstart := h.start_le
  have hstop := h.le_stop
  constructor
  · by_contra hlt
    have hnewline := h.isLine.starts.resolve_left (by omega)
    exact hfree (mem_slice_iff.mpr ⟨i - 1, by omega, by omega, hnewline⟩)
  · by_contra hlt
    have hnewline := h.isLine.ends.resolve_left (by omega)
    exact hfree (mem_slice_iff.mpr ⟨j, by omega, by omega, hnewline⟩)

theorem IsLineAround.unique (h : t.IsLineAround p i j) (h' : t.IsLineAround p i' j') : i' = i ∧ j' = j := by
  have hin := h.covers h'.start_le h'.le_stop h'.isLine.le_length h'.isLine.free
  have hout := h'.covers h.start_le h.le_stop h.isLine.le_length h.isLine.free
  omega

theorem IsLineAround.eq_stop {n : Nat} (h : t.IsLineAround n i j) (hn : t[n]? = some '\n') : n = j := by
  have hstart := h.start_le
  have hstop := h.le_stop
  by_contra hne
  exact h.isLine.free (mem_slice_iff.mpr ⟨n, by omega, by omega, hn⟩)

end

/-! ## The two searches -/

theorem findRev?_range_eq_some {q : Nat → Bool} {n k : Nat} (h : (List.range n).findRev? q = some k) :
    q k ∧ k < n ∧ ∀ m, k < m → m < n → q m = false := by
  rw [List.findRev?_eq_find?_reverse, List.find?_eq_some_iff_append] at h
  obtain ⟨hk, later, earlier, hsplit, hlater⟩ := h
  have hmem (m : Nat) : m < n ↔ m ∈ later ∨ m = k ∨ m ∈ earlier := by
    rw [← List.mem_range, ← List.mem_reverse, hsplit, List.mem_append, List.mem_cons]
  have hdown : (List.range n).reverse.Pairwise (fun a b => b < a) :=
    List.pairwise_reverse.mpr List.pairwise_lt_range
  rw [hsplit, List.pairwise_append, List.pairwise_cons] at hdown
  refine ⟨hk, (hmem k).mpr (.inr (.inl rfl)), fun m hkm hm => ?_⟩
  -- what comes after `k` on the way down is less than `k`
  cases (hmem m).mp hm with
  | inl hin => simpa using hlater m hin
  | inr hin =>
    cases hin with
    | inl heq => omega
    | inr hin => exact absurd (hdown.2.1.1 m hin) (by omega)

section
variable (t : Text) (offset : Int)

theorem pointAt_eq_min : t.pointAt offset = min (t.fromStart offset) t.length := by
  unfold pointAt fromStart
  split <;> omega

theorem cast_pointAt : (t.pointAt offset : Int) =
    max 0 (min (if offset < 0 then offset + t.length else offset) t.length) := by
  unfold pointAt
  split <;> omega

theorem searchedStart_spec : t.searchedStart offset ≤ t.pointAt offset ∧
    (t.searchedStart offset = 0 ∨ t[t.searchedStart offset - 1]? = some '\n') ∧
    ∀ m, t.searchedStart offset ≤ m → m < t.pointAt offset → t[m]? ≠ some '\n' := by
  rw [pointAt_eq_min, searchedStart]
  cases hfound : (List.range t.length).findRev? fun k => k < t.fromStart offset ∧ t[k]? = some '\n' with
  | none =>
    refine ⟨Nat.zero_le _, .inl rfl, fun m _ hm hnewline => ?_⟩
    rw [List.findRev?_eq_find?_reverse, List.find?_eq_none] at hfound
    have hnot := hfound m (List.mem_reverse.mpr (List.mem_range.mpr (by omega)))
    simp only [decide_eq_true_eq] at hnot
    exact hnot ⟨by omega, hnewline⟩
  | some k =>
    obtain ⟨hk, hlength, hlater⟩ := findRev?_range_eq_some hfound
    simp only [decide_eq_true_eq] at hk
    simp only [Option.elim_some]
    refine ⟨by omega, .inr hk.2, fun m hkm hm hnewline => ?_⟩
    have hnot := hlater m hkm (by omega)
    simp only [decide_eq_false_iff_not] at hnot
    exact hnot ⟨by omega, hnewline⟩

theorem searchedStop_spec : t.pointAt offset ≤ t.searchedStop offset ∧ t.searchedStop offset ≤ t.length ∧
    (t.searchedStop offset = t.length ∨ t[t.searchedStop offset]? = some '\n') ∧
    ∀ m, t.pointAt offset ≤ m → m < t.searchedStop offset → t[m]? ≠ some '\n' := by
  rw [pointAt_eq_min, searchedStop]
  cases hfound : (List.range t.length).find? fun k => t.fromStart offset ≤ k ∧ t[k]? = some '\n' with
  | none =>
    refine ⟨Nat.min_le_right _ _, Nat.le_refl _, .inl rfl, fun m hm hlt hnewline => ?_⟩
    simp only [Option.getD_none] at hlt
    have hnot := List.find?_range_eq_none.mp hfound m hlt
    simp only [Bool.not_eq_true', decide_eq_false_iff_not] at hnot
    exact hnot ⟨by omega, hnewline⟩
  | some k =>
    obtain ⟨hk, hrange, hearlier⟩ := List.find?_range_eq_some.mp hfound
    simp only [decide_eq_true_eq] at hk
    have hlength := List.mem_range.mp hrange
    simp only [Option.getD_some]
    refine ⟨by omega, by omega, .inr hk.2, fun m hm hlt hnewline => ?_⟩
    have hnot := hearlier m hlt
    simp only [Bool.not_eq_true', decide_eq_false_iff_not] at hnot
    exact hnot ⟨by omega, hnewline⟩

/-- The two searches meet on the line around the point that the offset means. -/
theorem isLineAround_searched :
    t.IsLineAround (t.pointAt offset) (t.searchedStart offset) (t.searchedStop offset) := by
  obtain ⟨hstart, hstarts, hbefore⟩ := t.searchedStart_spec offset
  obtain ⟨hstop, hlength, hends, hafter⟩ := t.searchedStop_spec offset
  refine ⟨⟨by omega, hlength, fun hmem => ?_, hstarts, hends⟩, by omega, by omega⟩
  obtain ⟨m, hm, hm', hnewline⟩ := mem_slice_iff.mp hmem
  by_cases h : m < t.pointAt offset
  · exact hbefore m hm h hnewline
  · exact hafter m (by omega) hm' hnewline

theorem lineAt_eq_slice : t.lineAt offset =
    dropEndWhile (· = '\r') (t.slice (t.searchedStart offset) (t.searchedStop offset)) := by
  obtain ⟨hline, hslice⟩ := isLine_append (t.take (t.pointAt offset)) (t.drop (t.pointAt offset))
  have hlength : (t.take (t.pointAt offset)).length = t.pointAt offset := by
    rw [List.length_take, pointAt_eq_min]
    omega
  have hstart := lineStart_le (t.take (t.pointAt offset))
  rw [List.take_append_drop, hlength] at hline hslice
  have haround : t.IsLineAround (t.pointAt offset) _ _ := ⟨hline, by omega, by omega⟩
  obtain ⟨hi, hj⟩ := haround.unique (t.isLineAround_searched offset)
  rw [hi, hj, hslice]
  rfl

end

end MathTokens.Text

namespace MathTokens

/-- **Lines at any offset.** What is shown for a place is the line around its offset, up to the carriage
returns at the end of that line. It is the line between the two newlines that are searched for, the only
one around that point, and the longest text around it without a newline. -/
theorem sourceLine_shows_line_around (e : Malformed) :
    let t := e.source
    let n := e.place.offset
    let p : Int := max 0 (min (if n < 0 then n + t.length else n) t.length)
    let i := t.searchedStart n
    let j := t.searchedStop n
    t.IsLineAround p i j ∧ t.Displays i j e.sourceLine ∧
      (∀ i' j', t.IsLineAround p i' j' → i' = i ∧ j' = j) ∧
      (∀ i' j' : Nat, i' ≤ p → p ≤ j' → j' ≤ t.length → '\n' ∉ t.slice i' j' → i ≤ i' ∧ j' ≤ j) ∧
      (t[p.toNat]? = some '\n' → p = j) := by
  intro t n p i j
  have hp : (t.pointAt n : Int) = p := t.cast_pointAt n
  have haround : t.IsLineAround (t.pointAt n) i j := t.isLineAround_searched n
  rw [← hp]
  refine ⟨haround, ?_, fun _ _ h => haround.unique h, fun _ _ => haround.covers, fun hn => ?_⟩
  · have hshown := Text.displays_dropEndWhile haround.isLine
    rwa [← t.lineAt_eq_slice n] at hshown
  · exact congrArg Nat.cast (haround.eq_stop hn)

/-- On a newline that is meant from the end: the line that it ends, without its carriage returns. -/
theorem sourceLine_shows_line_around_newline :
    let source : Text := ['a', '\r', '\r', '\n', 'b']
    let e : Malformed := ⟨.unterminatedString, ⟨1, 4, -2⟩, source⟩
    e.sourceLine = ['a'] ∧ source.Displays 0 3 e.sourceLine ∧
      (source.IsLineAround 3 0 3 ∧ ∀ i j, source.IsLineAround 3 i j → i = 0 ∧ j = 3) ∧
      ('\n' ∉ source.slice 1 3 ∧ 0 ≤ 1 ∧ 3 ≤ 3) ∧ source[3]? = some '\n' := by
  intro source e
  have hstart : source.searchedStart (-2) = 0 := by decide
  have hstop : source.searchedStop (-2) = 3 := by decide
  have hfree : '\n' ∉ source.slice 1 3 := by decide
  have hnewline : source[3]? = some '\n' := by decide
  obtain ⟨haround, hshown, hunique, hcovers, -⟩ := sourceLine_shows_line_around e
  rw [show e.source.searchedStart e.place.offset = 0 from hstart,
    show e.source.searchedStop e.place.offset = 3 from hstop] at haround hshown hunique hcovers
  have hcover := hcovers 1 3 (by decide) (by decide) (by decide) hfree
  exact ⟨by decide, hshown, ⟨haround, hunique⟩, ⟨hfree, hcover⟩, hnewline⟩

end MathTokens
