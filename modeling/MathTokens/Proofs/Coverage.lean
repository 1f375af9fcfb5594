import MathTokens.Proofs.Bookkeeping

/-!
# Coverage

Between the start of the text and the cursor stand the tokens answered so far, in order, and nothing
but gaps around them. Each token is the slice of the text between its two positions.
-/

namespace MathTokens

def Text.slice (t : Text) (i j : Nat) : Text :=
  (t.take j).drop i

/-- The text is `raws` in order, with gaps before, between and after them. -/
inductive Spaced : List Text → Text → Prop
  | gap {g} : IsGap g → Spaced [] g
  | cons {g raw raws t} : IsGap g → Spaced raws t → Spaced (raw :: raws) (g ++ raw ++ t)

namespace Step

def token? : Step → Option Token
  | .token t => some t
  | _ => none

/-- Where an answer over `source` leaves the cursor. -/
def Leaves (source : Text) (cursor : Nat) : Step → Prop
  | .token t => cursor = t.stop.offset
  | .finished => cursor = source.length
  | .failed e => cursor = e.place.offset

end Step

/-- The tokens `ts` are slices of `source`, none of them is empty, and each starts where the one
before it has stopped or later. -/
structure Token.Slices (source : Text) (ts : List Token) : Prop where
  raw_ne_nil : ∀ t ∈ ts, t.raw ≠ []
  raw_eq : ∀ t ∈ ts, t.raw = source.slice t.start.offset t.stop.offset
  start_lt : ∀ t ∈ ts, t.start.offset < t.stop.offset
  ordered : ts.Pairwise fun t u => t.stop.offset ≤ u.start.offset

theorem slice_append (a b c : Text) :
    (a ++ b ++ c).slice a.length (a ++ b).length = b := by
  rw [Text.slice, List.take_left, List.drop_left]

/-! ## Gaps and raws -/

theorem Spaced.append {raws raws' : List Text} {t t' : Text} (h : Spaced raws t)
    (h' : Spaced raws' t') : Spaced (raws ++ raws') (t ++ t') := by
  induction h with
  | @gap g hg =>
    cases h' with
    | gap hg' => exact .gap (hg.append hg')
    | @cons g' raw raws t hg' h' =>
      have : Spaced (raw :: raws) (g ++ g' ++ raw ++ t) := .cons (hg.append hg') h'
      simpa only [List.append_assoc, List.nil_append] using this
  | @cons g raw raws t hg _ ih =>
    have : Spaced (raw :: (raws ++ raws')) (g ++ raw ++ (t ++ t')) := .cons hg ih
    simpa only [List.cons_append, List.append_assoc] using this

theorem Piece.Opens.spaced {p : Piece} {t rest : Text} (h : p.Opens t rest) :
    Spaced [p.lexeme.raw] p.text := by
  have : Spaced [p.lexeme.raw] (p.text ++ []) := .cons h.gap (.gap (by simp [IsGap]))
  rwa [List.append_nil] at this

/-! ## One step -/

theorem Advance.spaced {source before after : Text} {a : Step} (h : Advance source before a after) :
    ∃ t, after = before ++ t ∧ Spaced (a.token?.toList.map Token.raw) t := by
  cases h with
  | token _ hp => exact ⟨_, rfl, hp.spaced⟩
  | finished _ hg => exact ⟨_, rfl, .gap hg⟩
  | failed _ hu => exact ⟨_, rfl, .gap hu.gap⟩

theorem Advance.slice {source before after : Text} {t : Token} (h : Advance source before (.token t) after) :
    t.raw ≠ [] ∧ t.raw = source.slice t.start.offset t.stop.offset ∧
      before.length ≤ t.start.offset ∧ t.start.offset < t.stop.offset ∧ t.stop.offset = after.length := by
  cases h with
  | @token rest more p hs hp =>
    have hl := List.length_pos_iff.mpr hp.stands.raw_ne_nil
    have split : source = before ++ p.gap ++ p.lexeme.raw ++ more := hs.trans (hp.append_eq before)
    refine ⟨hp.stands.raw_ne_nil, ?_, ?_, ?_, ?_⟩
    · simp only [Piece.token, Token.after, Position.after]
      rw [split, slice_append]
    · simp [Piece.token, Token.after, Position.after]
    · simp only [Piece.token, Token.after, Position.after, List.length_append]
      omega
    · simp only [Piece.token, Token.after, Position.after, Piece.text, List.append_assoc]

theorem Advance.leaves {source before after : Text} {a : Step} (h : Advance source before a after) :
    a.Leaves source after.length := by
  cases a with
  | token t => exact h.slice.2.2.2.2.symm
  | finished =>
    cases h with
    | finished hs _ => rw [Step.Leaves, hs]
  | failed e =>
    cases h with
    | failed _ _ => rfl

/-! ## Runs -/

theorem Step.tokens_concat (as : List Step) (a : Step) :
    (as ++ [a]).filterMap token? = as.filterMap token? ++ a.token?.toList := by
  rw [List.filterMap_append]
  cases h : a.token? <;> simp [h]

theorem Course.spaced {source before : Text} {as : List Step} (h : Course source as before) :
    Spaced ((as.filterMap Step.token?).map Token.raw) before := by
  induction h with
  | start => exact .gap (by simp [IsGap])
  | step _ ha ih =>
    obtain ⟨t, rfl, ht⟩ := ha.spaced
    rw [Step.tokens_concat, List.map_append]
    exact ih.append ht

theorem Course.slices {source before : Text} {as : List Step} (h : Course source as before) :
    Token.Slices source (as.filterMap Step.token?) ∧
      ∀ t ∈ as.filterMap Step.token?, t.stop.offset ≤ before.length := by
  induction h with
  | start => exact ⟨⟨by simp, by simp, by simp, by simp⟩, by simp⟩
  | @step as a before after _ ha ih =>
    obtain ⟨t, hafter, -⟩ := ha.spaced
    have hl : before.length ≤ after.length := by simp [hafter]
    have stop : ∀ u ∈ as.filterMap Step.token?, u.stop.offset ≤ after.length := fun u hu =>
      Nat.le_trans (ih.2 u hu) hl
    rw [List.filterMap_append]
    cases a with
    | finished =>
      rw [show [Step.finished].filterMap Step.token? = [] from rfl, List.append_nil]
      exact ⟨ih.1, stop⟩
    | failed e =>
      rw [show [Step.failed e].filterMap Step.token? = [] from rfl, List.append_nil]
      exact ⟨ih.1, stop⟩
    | token u =>
      obtain ⟨hne, heq, hstart, hlt, hstop⟩ := ha.slice
      have new : ∀ P : Token → Prop, (∀ v ∈ as.filterMap Step.token?, P v) → P u →
          ∀ v ∈ as.filterMap Step.token? ++ [Step.token u].filterMap Step.token?, P v := by
        intro P hP hu v hv
        rcases List.mem_append.mp hv with hv | hv
        · exact hP v hv
        · rw [List.mem_singleton.mp hv]
          exact hu
      refine ⟨⟨new _ ih.1.raw_ne_nil hne, new _ ih.1.raw_eq heq, new _ ih.1.start_lt hlt, ?_⟩,
        new _ stop (Nat.le_of_eq hstop)⟩
      refine List.pairwise_append.mpr ⟨ih.1.ordered, List.pairwise_singleton _ _, ?_⟩
      intro v hv w hw
      rw [List.mem_singleton.mp hw]
      exact Nat.le_trans (ih.2 v hv) hstart

/-- **Coverage.** After any number of steps no character before the cursor is lost, doubled or moved. -/
theorem run_covers (source : Text) (n : Nat) :
    let r := (Stream.ofText source).run n
    let ts := r.1.filterMap Step.token?
    r.2.cursor ≤ source.length ∧ Spaced (ts.map Token.raw) (source.take r.2.cursor) ∧
      Token.Slices source ts ∧ r.2.next.1.Leaves source r.2.next.2.cursor := by
  intro r ts
  obtain ⟨before, hc, hs⟩ := Stream.course_run source n
  obtain ⟨after, ha, hn⟩ := hs.next
  refine ⟨?_, ?_, hc.slices.1, ?_⟩
  · rw [hs.cursor_eq]
    exact hc.isPrefix.length_le
  · rw [hs.cursor_eq, ← List.prefix_iff_eq_take.mp hc.isPrefix]
    exact hc.spaced
  · rw [hn.cursor_eq]
    exact ha.leaves

end MathTokens
