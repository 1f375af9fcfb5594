import MathTokens.Proofs.Courses

/-!
# The bookkeeping of lines

A stream counts the newlines between two points only when a position is asked for, and it keeps the
count from one step to the next. At every moment of every run its mark is a true mark of a point not
after the cursor, and every place that it names is the place counted from the start of the text.
-/

namespace MathTokens

/-- Line and column of `p` are those of its offset, counted from the start of `source`. -/
def Place.TrueIn (source : Text) (p : Place) : Prop :=
  ∃ n : Nat, n ≤ source.length ∧ p.offset = n ∧ p.line = 1 + (source.take n).count '\n' ∧
    p.column = (n : Int) - Text.lineStart (source.take n) + 1

def Step.places : Step → List Place
  | .token t => [t.start.toPlace, t.stop.toPlace]
  | .finished => []
  | .failed e => [e.place]

/-- The mark `m` is right for a stream over `source` with this cursor. -/
structure LineMark.Keeps (source : Text) (cursor : Nat) (m : LineMark) : Prop where
  lineStart_le : m.lineStart ≤ m.offset
  offset_le : m.offset ≤ cursor
  cursor_le : cursor ≤ source.length
  line_eq : m.line = 1 + (source.take m.offset).count '\n'
  lineStart_eq : m.lineStart = Text.lineStart (source.take m.offset)

/-- The cursors and marks of a step: while the cursor moves over the gap, with its position asked
for, with the cursor moved past the token, and with the position of the new cursor asked for. -/
def Stream.moments (s : Stream) : List (Nat × LineMark) :=
  (List.range ((s.rest.takeWhile isGap).length + 1)).map (fun i => (s.cursor + i, s.mark)) ++
    [(s.skipGap.cursor, s.skipGap.here), (s.next.2.cursor, s.skipGap.here),
      (s.next.2.cursor, s.next.2.mark)]

/-! ## Places -/

theorem trueIn_after {source before : Text} (h : before <+: source) :
    (Position.after before).toPlace.TrueIn source := by
  have hl := before.lineStart_le
  refine ⟨before.length, h.length_le, rfl, ?_, ?_⟩
  · rw [← List.prefix_iff_eq_take.mp h]
    simp [Position.after, Position.toPlace]
  · rw [← List.prefix_iff_eq_take.mp h]
    simp only [Position.after, Position.toPlace]
    omega

theorem Advance.isPrefix {source before after : Text} {a : Step} (h : Advance source before a after) :
    after <+: source ∧ ∀ rest, source = before ++ rest → before ++ rest.takeWhile isGap <+: after := by
  cases h with
  | @token rest more p hs hp =>
    refine ⟨⟨more, by rw [hs, hp.eq, List.append_assoc]⟩, fun rest' hr => ?_⟩
    obtain rfl := List.append_cancel_left (hs.symm.trans hr)
    obtain ⟨_, _, hg, -⟩ := hp.read?
    rw [hg, Piece.text, ← List.append_assoc]
    exact List.prefix_append _ _
  | @finished rest hs hg =>
    refine ⟨⟨[], by rw [hs, List.append_nil]⟩, fun rest' hr => ?_⟩
    obtain rfl := List.append_cancel_left (hs.symm.trans hr)
    exact (List.prefix_append_right_inj before).mpr (List.takeWhile_prefix _)
  | @failed rest gap tail hs hu =>
    refine ⟨⟨quote :: tail, by rw [hs, hu.eq, List.append_assoc]⟩, fun rest' hr => ?_⟩
    obtain rfl := List.append_cancel_left (hs.symm.trans hr)
    exact ⟨[], by rw [hu.dropWhile_eq.1, List.append_nil]⟩

theorem Advance.places_trueIn {source before after : Text} {a : Step}
    (h : Advance source before a after) : ∀ p ∈ a.places, p.TrueIn source := by
  have hpre := h.isPrefix.1
  intro q hq
  cases h with
  | @token rest more p hs hp =>
    have start : before ++ p.gap <+: source :=
      ⟨p.lexeme.raw ++ more, by rw [hs, hp.eq, Piece.text, List.append_assoc, List.append_assoc]⟩
    simp only [Step.places, Piece.token, Token.after, List.mem_cons, List.not_mem_nil, or_false] at hq
    rcases hq with rfl | rfl
    · exact trueIn_after start
    · rw [List.append_assoc]
      exact trueIn_after hpre
  | finished => simp [Step.places] at hq
  | failed hs hu =>
    simp only [Step.places, List.mem_singleton] at hq
    subst hq
    exact trueIn_after hpre

theorem Course.isPrefix {source before : Text} {as : List Step} (h : Course source as before) :
    before <+: source := by
  cases h with
  | start => exact List.nil_prefix
  | step _ ha => exact ha.isPrefix.1

theorem Course.places_trueIn {source before : Text} {as : List Step} (h : Course source as before) :
    ∀ a ∈ as, ∀ p ∈ a.places, p.TrueIn source := by
  induction h with
  | start => simp
  | step _ ha ih =>
    intro a hm
    rcases List.mem_append.mp hm with hm | hm
    · exact ih a hm
    · rw [List.mem_singleton.mp hm]
      exact ha.places_trueIn

/-! ## Marks -/

theorem keeps_pass_start {source marked : Text} {cursor : Nat} (h : marked <+: source)
    (hm : marked.length ≤ cursor) (hc : cursor ≤ source.length) :
    (LineMark.start.pass marked).Keeps source cursor := by
  rw [LineMark.pass_start]
  exact ⟨marked.lineStart_le, hm, hc, by rw [← List.prefix_iff_eq_take.mp h], by rw [← List.prefix_iff_eq_take.mp h]⟩

theorem Stream.At.keeps {source before : Text} {s : Stream} (h : s.At source before) {cursor : Nat}
    (hb : before.length ≤ cursor) (hc : cursor ≤ source.length) : s.mark.Keeps source cursor := by
  obtain ⟨marked, hsplit, hm⟩ := h.mark
  have hl := congrArg List.length hsplit
  rw [List.length_append] at hl
  rw [hm]
  refine keeps_pass_start ⟨s.passed ++ s.rest, ?_⟩ (by omega) hc
  rw [h.split, hsplit, List.append_assoc]

theorem Stream.At.moments_keep {source before : Text} {s : Stream} (h : s.At source before) :
    ∀ m ∈ s.moments, m.2.Keeps source m.1 := by
  have hs := h.skipGap
  obtain ⟨after, ha, hn⟩ := h.next
  obtain ⟨hpre, hgap⟩ := ha.isPrefix
  have hgap := hgap s.rest h.split
  have hlen := hpre.length_le
  have hgl := hgap.length_le
  rw [List.length_append] at hgl
  have hskip : s.skipGap.cursor = before.length + (s.rest.takeWhile isGap).length := by
    rw [hs.cursor_eq, List.length_append]
  have hhere : ∀ cursor, s.skipGap.cursor ≤ cursor → cursor ≤ source.length →
      s.skipGap.here.Keeps source cursor := by
    intro cursor hc hl
    rw [hs.cursor_eq] at hc
    rw [hs.here_eq]
    exact keeps_pass_start (hgap.trans hpre) hc hl
  intro m hm
  rcases List.mem_append.mp hm with hm | hm
  · obtain ⟨i, hi, rfl⟩ := List.mem_map.mp hm
    have hi := List.mem_range.mp hi
    rw [h.cursor_eq]
    exact h.keeps (by dsimp only; omega) (by dsimp only; omega)
  · simp only [List.mem_cons, List.not_mem_nil, or_false, hn.cursor_eq] at hm
    rcases hm with rfl | rfl | rfl
    · exact hhere _ (Nat.le_refl _) (by dsimp only; omega)
    · exact hhere _ (by dsimp only; omega) hlen
    · exact hn.keeps (Nat.le_refl _) hlen

/-! ## Runs -/

/-- **True positions.** No step of a run names a wrong place, failed steps and steps after the end
included, and the mark is right at every moment of the step that comes next. -/
theorem run_keeps_lines (source : Text) (n : Nat) :
    (∀ a ∈ ((Stream.ofText source).run n).1, ∀ p ∈ a.places, p.TrueIn source) ∧
      ∀ m ∈ ((Stream.ofText source).run n).2.moments, m.2.Keeps source m.1 := by
  obtain ⟨before, hc, hs⟩ := Stream.course_run source n
  exact ⟨hc.places_trueIn, hs.moments_keep⟩

/-- A string over two lines, then a quote that fails twice. -/
theorem run_keeps_lines_open_string :
    let source := ['x', '\n', '"', 'a', '\n', 'b', '"', ' ', '"']
    let r := (Stream.ofText source).run 4
    (.failed ⟨.unterminatedString, ⟨3, 4, 8⟩, source⟩ ∈ r.1 ∧ (⟨3, 4, 8⟩ : Place).TrueIn source) ∧
      (8, ⟨3, 5, 8⟩) ∈ r.2.moments ∧ (⟨3, 5, 8⟩ : LineMark).Keeps source 8 := by
  intro source r
  have hf : .failed ⟨.unterminatedString, ⟨3, 4, 8⟩, source⟩ ∈ r.1 := by decide
  have hm : (8, ⟨3, 5, 8⟩) ∈ r.2.moments := by decide
  have h := run_keeps_lines source 4
  exact ⟨⟨hf, h.1 _ hf _ (by decide)⟩, hm, h.2 _ hm⟩

end MathTokens
