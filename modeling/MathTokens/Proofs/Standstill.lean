import Mathlib.Order.Monotone.Basic
import MathTokens.Proofs.Coverage
import MathTokens.Proofs.QuoteStates
import MathTokens.Proofs.Shifts

/-!
# Streams that stand still

A step that answers no token leaves the cursor where the next step answers the same again: at the end
of the text, or on a quote that opens a string and is the last one. So from there on nothing changes,
although a failing step has moved over a gap and worked out a line.
-/

namespace MathTokens

/-- Where a stream over `source` stands still with this answer. -/
def Step.StaysAt (source : Text) (cursor : Nat) : Step → Prop
  | .token _ => False
  | .finished => cursor = source.length
  | .failed e => LastQuote source cursor ∧ Within.after (source.take cursor) = .nothing ∧
      e = .unclosed source (source.take cursor)

section
variable {source before after : Text} {a : Step} {as : List Step} {s : Stream}

/-! ## What is behind the cursor -/

theorem Within.IsLeft.gap {w : Within} {g rest : Text} (h : w.IsLeft (g ++ rest)) (hg : IsGap g) :
    (g.foldl step w).IsLeft rest := by
  rw [foldl_of_isGap h.ne_string hg]
  split
  · next hnil => rwa [hnil] at h
  · exact .inl rfl

theorem Advance.isLeft (h : Advance source before a after)
    (hw : (Within.after before).IsLeft (source.drop before.length)) :
    (Within.after after).IsLeft (source.drop after.length) := by
  unfold Within.after at hw ⊢
  cases h with
  | @token rest more p hs hp =>
    rw [hs, List.drop_left] at hw
    have hmore : source = before ++ p.text ++ more := by rw [hs, hp.eq, List.append_assoc]
    rw [hmore, List.drop_left, List.foldl_append]
    exact Within.isLeft_of_opens hp hw
  | @finished rest hs hg =>
    rw [hs, List.drop_left, ← List.append_nil rest] at hw
    rw [← hs, List.drop_length, hs, List.foldl_append]
    exact hw.gap hg
  | @failed rest gap tail hs hu =>
    rw [hs, List.drop_left, hu.eq] at hw
    have hrest : source = before ++ gap ++ quote :: tail := by rw [hs, hu.eq, List.append_assoc]
    rw [hrest, List.drop_left, List.foldl_append]
    exact hw.gap hu.gap

/-- A word behind the cursor has come to its end. -/
theorem Course.isLeft (h : Course source as before) :
    (Within.after before).IsLeft (source.drop before.length) := by
  induction h with
  | start => exact .inl rfl
  | step _ ha ih => exact ha.isLeft ih

/-! ## The same answer again -/

theorem Advance.repeats (h : Advance source before a after) (ha : a.token? = none) :
    Advance source after a after := by
  cases h with
  | token => cases ha
  | @finished rest hs =>
    have hend : Advance source (before ++ rest) .finished (before ++ rest ++ []) :=
      .finished (by rw [List.append_nil, hs]) (by simp [IsGap])
    rwa [List.append_nil] at hend
  | @failed rest gap tail hs hu =>
    -- the gap is behind the cursor now, and the quote is right at it
    have hquote : Unclosed (quote :: tail) [] tail := ⟨rfl, by simp [IsGap], hu.tail⟩
    have hagain : Advance source (before ++ gap) _ (before ++ gap ++ []) :=
      .failed (by rw [hs, hu.eq, List.append_assoc]) hquote
    rwa [List.append_nil] at hagain

theorem Advance.staysAt (h : Advance source before a after) (ha : a.token? = none)
    (hw : (Within.after after).IsLeft (source.drop after.length)) : a.StaysAt source after.length := by
  cases h with
  | token => cases ha
  | finished hs => rw [Step.StaysAt, hs]
  | @failed rest gap tail hs hu =>
    have hsource : source = before ++ gap ++ quote :: tail := by rw [hs, hu.eq, List.append_assoc]
    have htake : source.take (before ++ gap).length = before ++ gap := by rw [hsource, List.take_left]
    have hdrop : source.drop (before ++ gap).length = quote :: tail := by rw [hsource, List.drop_left]
    have hlast : LastQuote source (before ++ gap).length := hsource ▸ lastQuote_append hu.tail
    rw [hdrop] at hw
    rw [Step.StaysAt, htake]
    -- a word would have ended before the quote, and a quote ends no word
    exact ⟨hlast, hw.resolve_right fun hword => not_atBreak_quote hword.2, rfl⟩

theorem Stream.At.run_repeats (h : s.At source before) (ha : Advance source before a before) (m : Nat) :
    (s.run m).1 = List.replicate m a ∧ (s.run m).2.At source before := by
  induction m with
  | zero => exact ⟨rfl, h⟩
  | succ m ih =>
    obtain ⟨hanswers, hs⟩ := ih
    obtain ⟨hnext, hs'⟩ := hs.next_eq ha
    rw [Stream.run, hanswers, hnext, List.replicate_succ']
    exact ⟨rfl, hs'⟩

/-! ## Runs -/

theorem Stream.At.unique (h : s.At source before) (h' : s.At source after) : before = after :=
  List.append_cancel_right (h.split.symm.trans h'.split)

end

namespace Stream

variable (source : Text)

theorem cursor_run_mono : Monotone fun n => ((ofText source).run n).2.cursor := by
  refine monotone_nat_of_le_succ fun n => ?_
  obtain ⟨before, -, hs⟩ := course_run source n
  obtain ⟨after, ha, hs'⟩ := hs.next
  obtain ⟨t, hafter, -⟩ := ha.spaced
  rw [Stream.run, hs.cursor_eq, hs'.cursor_eq, hafter, List.length_append]
  exact Nat.le_add_right _ _

/-- Where an answer was no token, the stream is still there after the steps that followed. -/
theorem run_settles (n : Nat) :
    ∃ before, Course source ((ofText source).run n).1 before ∧ ((ofText source).run n).2.At source before ∧
      ∀ a ∈ ((ofText source).run n).1, a.token? = none → Advance source before a before := by
  induction n with
  | zero => exact ⟨[], .start, at_ofText source, by simp [run]⟩
  | succ n ih =>
    obtain ⟨before, hc, hs, hsettled⟩ := ih
    obtain ⟨after, ha, hs'⟩ := hs.next
    refine ⟨after, .step hc ha, hs', fun b hb hnone => ?_⟩
    rcases List.mem_append.mp hb with hb | hb
    · have hadvance := hsettled b hb hnone
      have hstay := (hs.next_eq hadvance).2
      rwa [hstay.unique hs'] at hadvance
    · rw [List.mem_singleton.mp hb] at hnone ⊢
      exact ha.repeats hnone

theorem run_pairwise (n : Nat) :
    ((ofText source).run n).1.Pairwise fun a b => a.token? = none → b = a := by
  induction n with
  | zero => exact .nil
  | succ n ih =>
    obtain ⟨before, -, hs, hsettled⟩ := run_settles source n
    refine List.pairwise_append.mpr ⟨ih, List.pairwise_singleton _ _, fun a ha b hb hnone => ?_⟩
    rw [List.mem_singleton.mp hb]
    exact (hs.next_eq (hsettled a ha hnone)).1

end Stream

/-- **Standstill.** The cursor never moves backwards. An answer that is no token is the answer to every
step after it, in one run or in a later one, and the cursor stays: at the end of the text if the answer
is that it is finished, else on a quote that opens a string, that is the last one of the text, and that
the failure names. -/
theorem run_stands_still (source : Text) :
    (Monotone fun n => ((Stream.ofText source).run n).2.cursor) ∧
    ∀ n, let r := (Stream.ofText source).run n
      (r.1.Pairwise fun a b => a.token? = none → b = a) ∧
        ∀ a ∈ r.1, a.token? = none → a.StaysAt source r.2.cursor ∧
          ∀ m, (r.2.run m).1 = List.replicate m a ∧ (r.2.run m).2.cursor = r.2.cursor := by
  refine ⟨Stream.cursor_run_mono source, fun n => ⟨Stream.run_pairwise source n, fun a ha hnone => ?_⟩⟩
  obtain ⟨before, hc, hs, hsettled⟩ := Stream.run_settles source n
  have hadvance := hsettled a ha hnone
  rw [hs.cursor_eq]
  refine ⟨hadvance.staysAt hnone hc.isLeft, fun m => ?_⟩
  obtain ⟨hanswers, hs'⟩ := hs.run_repeats hadvance m
  exact ⟨hanswers, hs'.cursor_eq⟩

/-- A quote in a name, and behind a gap one that fails, again and again. -/
theorem run_stands_still_open_string :
    let source := ['x', '"', '\n', ' ', '"', 'a']
    let e : Malformed := ⟨.unterminatedString, ⟨2, 2, 4⟩, source⟩
    let r := (Stream.ofText source).run 2
    .failed e ∈ r.1 ∧ r.2.cursor = 4 ∧ (Step.failed e).StaysAt source 4 ∧
      ∀ m, (r.2.run m).1 = List.replicate m (.failed e) ∧ (r.2.run m).2.cursor = 4 := by
  intro source e r
  have hfailed : .failed e ∈ r.1 := by decide
  have hcursor : r.2.cursor = 4 := by decide
  have hstill := ((run_stands_still source).2 2).2 _ hfailed rfl
  rw [hcursor] at hstill
  exact ⟨hfailed, hcursor, hstill⟩

end MathTokens
