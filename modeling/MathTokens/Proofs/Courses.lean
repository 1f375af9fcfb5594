import MathTokens.Proofs.Pieces
import MathTokens.Stream.Basic

/-!
# The course of a stream

A stream keeps a mark that lags behind its cursor. What it answers is told by the text before the
cursor alone: `Advance source before a after` says that a step from there answers `a` and leaves the
cursor after the text `after`. `Stream.At source before s` ties the two together, and every step
keeps it; so a run of any length is a run of advances.
-/

namespace MathTokens

/-- The stream `s` over `source` has the text `before` behind its cursor, and its mark is a true
mark of a point of that text. -/
structure Stream.At (source before : Text) (s : Stream) : Prop where
  source_eq : s.source = source
  split : source = before ++ s.rest
  mark : ∃ marked, before = marked ++ s.passed ∧ s.mark = LineMark.start.pass marked

/-- The error of a string that is opened after the text `before` and not closed. -/
def Malformed.unclosed (source before : Text) : Malformed :=
  ⟨.unterminatedString, (Position.after before).toPlace, source⟩

inductive Advance (source : Text) : Text → Step → Text → Prop
  | token {before rest more p} : source = before ++ rest → Piece.Opens p rest more →
      Advance source before (.token (p.token before)) (before ++ p.text)
  | finished {before rest} : source = before ++ rest → IsGap rest →
      Advance source before .finished (before ++ rest)
  | failed {before rest gap tail} : source = before ++ rest → Unclosed rest gap tail →
      Advance source before (.failed (.unclosed source (before ++ gap))) (before ++ gap)

/-- The answers of the first `n` steps, and the stream after them. -/
def Stream.run (s : Stream) : Nat → List Step × Stream
  | 0 => ([], s)
  | n + 1 => ((s.run n).1 ++ [(s.run n).2.next.1], (s.run n).2.next.2)

/-- The answers `as` are those of a run over `source` that has come past the text `before`. -/
inductive Course (source : Text) : List Step → Text → Prop
  | start : Course source [] []
  | step {as a before after} : Course source as before → Advance source before a after →
      Course source (as ++ [a]) after

namespace Stream

theorem at_ofText (source : Text) : (ofText source).At source [] :=
  ⟨rfl, rfl, [], rfl, rfl⟩

section
variable {source before : Text} {s : Stream}

theorem At.here_eq (h : s.At source before) : s.here = LineMark.start.pass before := by
  obtain ⟨marked, rfl, hm⟩ := h.mark
  rw [here, hm, LineMark.pass_append]

theorem At.cursor_eq (h : s.At source before) : s.cursor = before.length := by
  obtain ⟨marked, rfl, hm⟩ := h.mark
  simp [cursor, hm, LineMark.pass_start]

/-! ## One step -/

theorem At.skipGap (h : s.At source before) :
    s.skipGap.At source (before ++ s.rest.takeWhile isGap) := by
  obtain ⟨marked, hb, hm⟩ := h.mark
  refine ⟨h.source_eq, ?_, marked, ?_, hm⟩
  · rw [h.split, Stream.skipGap, List.append_assoc, List.takeWhile_append_dropWhile]
  · rw [hb, Stream.skipGap, List.append_assoc]

theorem At.take (h : s.At source before) {raw rest : Text} (hr : s.rest = raw ++ rest) :
    (s.take raw).At source (before ++ raw) := by
  refine ⟨h.source_eq, ?_, before ++ raw, ?_, ?_⟩
  · rw [h.split, Stream.take, hr, List.drop_left, List.append_assoc]
  · simp [Stream.take]
  · rw [Stream.take, h.here_eq, LineMark.pass_append]

theorem At.next_token (h : s.At source before) {p : Piece} {more : Text} (hp : p.Opens s.rest more) :
    s.next.1 = .token (p.token before) ∧ s.next.2.At source (before ++ p.text) ∧ s.next.2.rest = more := by
  obtain ⟨c, rest, hg, hd, he, hr⟩ := hp.read?
  have hs := h.skipGap
  rw [hg] at hs
  have hrest : s.skipGap.rest = p.lexeme.raw ++ more := hd.trans he
  have hn : s.next = (.token (.ofLexeme s.skipGap.here p.lexeme), s.skipGap.take p.lexeme.raw) := by
    simp only [next, show s.skipGap.rest = c :: rest from hd, hr]
  rw [hn]
  refine ⟨?_, ?_, ?_⟩
  · rw [hs.here_eq, Token.ofLexeme_pass_start, Piece.token]
  · rw [Piece.text, ← List.append_assoc]
    exact hs.take hrest
  · rw [Stream.take, hrest, List.drop_left]

theorem At.next_finished (h : s.At source before) (hg : IsGap s.rest) :
    s.next.1 = .finished ∧ s.next.2.At source (before ++ s.rest) := by
  obtain ⟨h1, h2⟩ := takeWhile_isGap (t := []) hg (by simp)
  rw [List.append_nil] at h1 h2
  have hs := h.skipGap
  rw [h1] at hs
  have hn : s.next = (.finished, s.skipGap) := by
    simp only [next, show s.skipGap.rest = [] from h2]
  rw [hn]
  exact ⟨rfl, hs⟩

theorem At.next_failed (h : s.At source before) {gap tail : Text} (hu : Unclosed s.rest gap tail) :
    s.next.1 = .failed (.unclosed source (before ++ gap)) ∧ s.next.2.At source (before ++ gap) := by
  obtain ⟨h1, h2⟩ := hu.dropWhile_eq
  have hs := h.skipGap
  rw [h1] at hs
  have hn : s.next = (.failed ⟨.unterminatedString, s.skipGap.here.position.toPlace, s.skipGap.source⟩,
      s.skipGap.take []) := by
    simp only [next, show s.skipGap.rest = quote :: tail from h2, Lexeme.read?_eq_none_iff.mpr ⟨rfl, hu.tail⟩]
  rw [hn]
  refine ⟨?_, ?_⟩
  · rw [hs.here_eq, LineMark.position_pass_start, hs.source_eq, Malformed.unclosed]
  · simpa using hs.take (List.nil_append _).symm

theorem At.next (h : s.At source before) :
    ∃ after, Advance source before s.next.1 after ∧ s.next.2.At source after := by
  rcases isGap_or_opens_or_unclosed s.rest with hg | ⟨p, more, hp⟩ | ⟨gap, tail, hu⟩
  · obtain ⟨ha, hs⟩ := h.next_finished hg
    exact ⟨_, ha ▸ .finished h.split hg, hs⟩
  · obtain ⟨ha, hs, -⟩ := h.next_token hp
    exact ⟨_, ha ▸ .token h.split hp, hs⟩
  · obtain ⟨ha, hs⟩ := h.next_failed hu
    exact ⟨_, ha ▸ .failed h.split hu, hs⟩

end

/-! ## Runs -/

theorem run_succ' (s : Stream) (n : Nat) :
    s.run (n + 1) = (s.next.1 :: (s.next.2.run n).1, (s.next.2.run n).2) := by
  induction n with
  | zero => rfl
  | succ n ih => rw [run, ih]; rfl

theorem course_run (source : Text) (n : Nat) :
    ∃ before, Course source ((ofText source).run n).1 before ∧
      ((ofText source).run n).2.At source before := by
  induction n with
  | zero => exact ⟨[], .start, at_ofText source⟩
  | succ n ih =>
    obtain ⟨before, hc, hs⟩ := ih
    obtain ⟨after, ha, hs'⟩ := hs.next
    exact ⟨after, .step hc ha, hs'⟩

end Stream

end MathTokens
