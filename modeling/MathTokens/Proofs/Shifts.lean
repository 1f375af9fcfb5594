import MathTokens.Proofs.Courses

/-!
# A text put in front

A text put in front of another moves every position in it: offsets by its length, lines by its
newlines, and columns on the first line only. A stream in the middle of a text goes on as a new
stream over what is left does, with the text before the cursor put in front. So nothing that a
stream keeps besides its cursor can be told from its answers.
-/

namespace MathTokens

/-! ## Shifts -/

def Position.shift (before : Text) (p : Position) : Position where
  line := p.line + before.count '\n'
  column := if p.line = 1 then p.column + ((after before).column - 1) else p.column
  offset := p.offset + before.length

def Place.shift (before : Text) (p : Place) : Place where
  line := p.line + before.count '\n'
  column := if p.line = 1 then p.column + ((Position.after before).column - 1) else p.column
  offset := p.offset + before.length

def Token.shift (before : Text) (t : Token) : Token :=
  { t with start := t.start.shift before, stop := t.stop.shift before }

def Malformed.shift (before : Text) (e : Malformed) : Malformed where
  cause := e.cause
  place := e.place.shift before
  source := before ++ e.source

def Step.shift (before : Text) : Step → Step
  | .token t => .token (t.shift before)
  | .finished => .finished
  | .failed e => .failed (e.shift before)

theorem Text.lineStart_append_of_mem {a b : Text} (h : '\n' ∈ b) :
    lineStart (a ++ b) = a.length + lineStart b := by
  have hab := lineStart_add_length_lastLine (a ++ b)
  have hb := lineStart_add_length_lastLine b
  rw [lastLine_append_of_mem h, List.length_append] at hab
  omega

theorem Text.lineStart_append_of_not_mem {a b : Text} (h : '\n' ∉ b) :
    lineStart (a ++ b) = lineStart a := by
  have hab := lineStart_add_length_lastLine (a ++ b)
  have ha := lineStart_add_length_lastLine a
  rw [lastLine_append_of_not_mem h, List.length_append, List.length_append] at hab
  omega

section
variable (before : Text)

theorem Position.after_append (t : Text) : after (before ++ t) = (after t).shift before := by
  have hb := before.lineStart_le
  have ht := t.lineStart_le
  unfold after shift
  simp only [List.count_append, List.length_append, Position.mk.injEq]
  refine ⟨by omega, ?_, by omega⟩
  by_cases h : '\n' ∈ t
  · have hc : 0 < t.count '\n' := List.count_pos_iff.mpr h
    rw [Text.lineStart_append_of_mem h, if_neg (by omega)]
    omega
  · have hc : t.count '\n' = 0 := List.count_eq_zero.mpr h
    rw [Text.lineStart_append_of_not_mem h, Text.lineStart_of_not_mem h, if_pos (by omega)]
    simp only [after]
    omega

theorem Position.toPlace_shift (p : Position) : (p.shift before).toPlace = p.toPlace.shift before := by
  unfold shift Place.shift toPlace
  have hc : 0 < (after before).column := by simp [after]
  simp only [Place.mk.injEq]
  refine ⟨by omega, ?_, by omega⟩
  by_cases h : p.line = 1
  · rw [if_pos h, if_pos (by omega)]
    omega
  · rw [if_neg h, if_neg (by omega)]

theorem Piece.token_append (u : Text) (p : Piece) :
    p.token (before ++ u) = (p.token u).shift before := by
  unfold Piece.token Token.after Token.shift
  simp only [List.append_assoc, Position.after_append before]

theorem Malformed.unclosed_append (text u : Text) :
    unclosed (before ++ text) (before ++ u) = (unclosed text u).shift before := by
  unfold unclosed shift
  rw [Position.after_append, Position.toPlace_shift]

end

/-! ## One step -/

section
variable {source before after text u v : Text} {a : Step} {s f : Stream}

theorem Stream.At.rest_eq {rest : Text} (h : s.At source before) (hr : source = before ++ rest) :
    s.rest = rest :=
  List.append_cancel_left (h.split.symm.trans hr)

theorem Stream.At.next_eq (h : s.At source before) (ha : Advance source before a after) :
    s.next.1 = a ∧ s.next.2.At source after := by
  cases ha with
  | token hs hp =>
    obtain ⟨h1, h2, -⟩ := h.next_token (h.rest_eq hs ▸ hp)
    exact ⟨h1, h2⟩
  | finished hs hg =>
    have := h.next_finished (h.rest_eq hs ▸ hg)
    rwa [h.rest_eq hs] at this
  | failed hs hu => exact h.next_failed (h.rest_eq hs ▸ hu)

theorem Advance.shift (h : Advance text u a v) :
    Advance (before ++ text) (before ++ u) (a.shift before) (before ++ v) := by
  cases h with
  | token hs hp =>
    have : Advance (before ++ text) (before ++ u) _ _ := .token (by rw [hs, List.append_assoc]) hp
    rwa [Piece.token_append, List.append_assoc] at this
  | finished hs hg =>
    have : Advance (before ++ text) (before ++ u) _ _ := .finished (by rw [hs, List.append_assoc]) hg
    rwa [List.append_assoc] at this
  | failed hs hu =>
    have : Advance (before ++ text) (before ++ u) _ _ := .failed (by rw [hs, List.append_assoc]) hu
    rwa [List.append_assoc, Malformed.unclosed_append] at this

theorem Stream.At.next_shift (hs : s.At (before ++ text) (before ++ u)) (hf : f.At text u) :
    s.next.1 = f.next.1.shift before ∧
      ∃ v, s.next.2.At (before ++ text) (before ++ v) ∧ f.next.2.At text v := by
  obtain ⟨v, ha, hf'⟩ := hf.next
  obtain ⟨h1, hs'⟩ := hs.next_eq ha.shift
  exact ⟨h1, v, hs', hf'⟩

/-! ## Runs -/

theorem Stream.At.run_shift (hs : s.At (before ++ text) (before ++ u)) (hf : f.At text u) (m : Nat) :
    (s.run m).1 = (f.run m).1.map (Step.shift before) ∧
      ∃ v, (s.run m).2.At (before ++ text) (before ++ v) ∧ (f.run m).2.At text v := by
  induction m with
  | zero => exact ⟨rfl, u, hs, hf⟩
  | succ m ih =>
    obtain ⟨h, v, hs', hf'⟩ := ih
    obtain ⟨ha, hv⟩ := hs'.next_shift hf'
    refine ⟨?_, hv⟩
    rw [run, run, h, ha, List.map_append, List.map_singleton]

theorem Stream.At.drain_shift (hs : s.At (before ++ text) (before ++ u)) (hf : f.At text u) :
    s.drain.tokens = f.drain.tokens.map (Token.shift before) ∧
      s.drain.error? = f.drain.error?.map (Malformed.shift before) := by
  induction h : f.rest.length using Nat.strongRecOn generalizing s f u with
  | ind n ih =>
    -- both streams step together, and a token makes what is left of the new one shorter
    obtain ⟨ha, v, hs', hf'⟩ := hs.next_shift hf
    have hsn : s.next = (f.next.1.shift before, s.next.2) := Prod.ext ha rfl
    rw [drain_eq s, drain_eq f, hsn]
    cases hn : f.next with
    | mk b f' =>
      rw [hn] at hf'
      cases b with
      | token t =>
        obtain ⟨h1, h2⟩ := ih _ (h ▸ rest_length_next_lt hn) hs' hf' rfl
        exact ⟨congrArg (t.shift before :: ·) h1, h2⟩
      | finished => exact ⟨rfl, rfl⟩
      | failed e => exact ⟨rfl, rfl⟩

end

/-- **The cursor is the state.** After any number of steps a stream answers as a new stream over the
text from its cursor on, with the text before the cursor put in front, and the two cursors move
alike. -/
theorem run_resumes (source : Text) (n m : Nat) :
    let s := ((Stream.ofText source).run n).2
    let fresh := Stream.ofText (source.drop s.cursor)
    (s.run m).1 = (fresh.run m).1.map (Step.shift (source.take s.cursor)) ∧
      (s.run m).2.cursor = s.cursor + (fresh.run m).2.cursor := by
  intro s fresh
  obtain ⟨before, -, hs⟩ := Stream.course_run source n
  have hc : s.cursor = before.length := hs.cursor_eq
  have htake : source.take s.cursor = before := by rw [hc, hs.split, List.take_left]
  have hsplit : source = before ++ source.drop s.cursor := by rw [← htake, List.take_append_drop]
  have hs' : s.At (before ++ source.drop s.cursor) (before ++ []) := by
    rwa [← hsplit, List.append_nil]
  obtain ⟨h, v, hs'', hf⟩ := hs'.run_shift (Stream.at_ofText _) m
  rw [htake]
  refine ⟨h, ?_⟩
  rw [hs''.cursor_eq, hf.cursor_eq, hc, List.length_append]

end MathTokens
