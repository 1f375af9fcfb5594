import MathTokens.Proofs.Sharing

/-!
# Progress

Every token moves the cursor forward: a string to behind the quote that closes it, a word to where it is
cut off, and a symbol by one character. Each takes a character that is no gap and that no other token
takes. So there are no more tokens than such characters, and reading to the end comes to an end.
-/

namespace MathTokens

/-- The offset at which a word that starts at `start` is cut off: the next breakpoint, or the end. -/
def Text.cutoff (t : Text) (start : Nat) : Nat :=
  start + 1 + ((t.drop (start + 1)).takeWhile (!isBreakpoint ·)).length

def Text.solidCount (t : Text) : Nat :=
  t.countP fun c => c ≠ ' ' ∧ c ≠ '\n'

/-- Where a lexeme of each kind ends that starts at the offset `start` of `source`. -/
inductive EndsAt (source : Text) (start : Nat) : Kind → Nat → Prop
  | string {p} : start < p → source[p]? = some quote → quote ∉ source.slice (start + 1) p →
      EndsAt source start .string (p + 1)
  | word {k} : k.IsWord → EndsAt source start k (source.cutoff start)
  | symbol : EndsAt source start .symbol (start + 1)

/-- The token `t` of `source` takes the cursor from one offset to another. -/
structure Token.Moves (source : Text) (cursor cursor' : Nat) (t : Token) : Prop where
  cursor_le : cursor ≤ t.start.offset
  ends : EndsAt source t.start.offset t.content.kind t.stop.offset
  stop_eq : t.stop.offset = cursor'
  lt_cutoff : t.start.offset < source.cutoff t.start.offset
  cutoff_le : source.cutoff t.start.offset ≤ source.length
  forward : cursor < cursor'
  inside : cursor' ≤ source.length

def Stream.Drained.ending (d : Drained) : Step :=
  d.error?.elim .finished .failed

/-! ## Ends of lexemes -/

section
variable {source : Text} {start : Nat}

theorem Text.lt_cutoff (t : Text) (start : Nat) : start < t.cutoff start := by
  unfold cutoff
  omega

theorem Text.cutoff_le (h : start < source.length) : source.cutoff start ≤ source.length := by
  have hrun := (List.takeWhile_prefix (!isBreakpoint ·) (l := source.drop (start + 1))).length_le
  rw [List.length_drop] at hrun
  unfold cutoff
  omega

theorem EndsAt.bounds {k : Kind} {stop : Nat} (h : EndsAt source start k stop)
    (hstart : start < source.length) : start < stop ∧ stop ≤ source.length := by
  cases h with
  | @string p hlt hquote =>
    have hp := (List.getElem?_eq_some_iff.mp hquote).1
    omega
  | word => exact ⟨source.lt_cutoff start, Text.cutoff_le hstart⟩
  | symbol => omega

theorem cutoff_append {before run more : Text} {c : Char} (h : Cut (run ++ more) run more) :
    (before ++ (c :: run) ++ more).cutoff before.length = (before ++ (c :: run)).length := by
  have hdrop : (before ++ (c :: run) ++ more).drop (before.length + 1) = run ++ more := by
    rw [List.append_assoc, ← List.drop_drop, List.drop_left]
    rfl
  rw [Text.cutoff, hdrop, h.takeWhile_eq, List.length_append, List.length_cons]
  omega

theorem Stands.endsAt {l : Lexeme} {before more : Text} (h : Stands l more) :
    EndsAt (before ++ l.raw ++ more) before.length l.content.kind (before ++ l.raw).length := by
  cases h with
  | @string inner _ hinner =>
    have hstop : (before ++ (quote :: inner ++ [quote])).length = before.length + 1 + inner.length + 1 := by
      simp
      omega
    have hsource : before ++ (quote :: inner ++ [quote]) ++ more =
        (before ++ [quote]) ++ inner ++ (quote :: more) := by simp
    have hslice := slice_append (before ++ [quote]) inner (quote :: more)
    have hlast : ((before ++ [quote]) ++ inner ++ (quote :: more))[(before ++ [quote] ++ inner).length]? =
        some quote := by simp
    simp only [List.length_append, List.length_singleton] at hslice hlast
    rw [hstop, hsource]
    exact .string (by omega) hlast (by rwa [hslice])
  | number hd hstops =>
    obtain ⟨c, run, rfl, -, hcut⟩ := hd.cut hstops
    rw [← cutoff_append hcut]
    exact .word (.inr rfl)
  | symbol =>
    rw [List.length_append]
    exact .symbol
  | minus =>
    rw [List.length_append]
    exact .symbol
  | @name c run _ _ _ hrun _ hstops =>
    rw [← cutoff_append ⟨rfl, hrun, hstops⟩]
    exact .word (.inl rfl)

end

/-! ## One step -/

section
variable {source before after : Text} {a : Step} {as : List Step}

theorem Advance.moves {t : Token} (h : Advance source before (.token t) after) :
    t.Moves source before.length after.length := by
  cases h with
  | @token rest more p hs hp =>
    have hsource : source = before ++ p.gap ++ p.lexeme.raw ++ more := hs.trans (hp.append_eq before)
    have hstart : (before ++ p.gap).length < source.length := by
      have hraw := List.length_pos_iff.mpr hp.stands.raw_ne_nil
      rw [hsource]
      simp only [List.length_append]
      omega
    have hends : EndsAt (before ++ p.gap ++ p.lexeme.raw ++ more) (before ++ p.gap).length
        p.lexeme.content.kind (before ++ p.gap ++ p.lexeme.raw).length := hp.stands.endsAt
    rw [← hsource] at hends
    obtain ⟨hforward, hinside⟩ := hends.bounds hstart
    have hstop : (before ++ p.gap ++ p.lexeme.raw).length = (before ++ p.text).length := by
      rw [Piece.text, List.append_assoc]
    have hcursor : before.length ≤ (before ++ p.gap).length := by simp
    exact ⟨hcursor, hends, hstop, source.lt_cutoff _, Text.cutoff_le hstart, by omega, by omega⟩

theorem solidCount_append (t u : Text) : (t ++ u).solidCount = t.solidCount + u.solidCount :=
  List.countP_append

theorem solidCount_le {t u : Text} (h : t <+: u) : t.solidCount ≤ u.solidCount :=
  h.sublist.countP_le

theorem Piece.Opens.solidCount_pos {p : Piece} {t rest : Text} (h : p.Opens t rest) :
    0 < p.text.solidCount := by
  obtain ⟨c, raw, hraw⟩ := List.exists_cons_of_ne_nil h.stands.raw_ne_nil
  -- a lexeme starts with no gap, whatever stands in a string behind its quote
  have hc := (h.stands.read? (by rw [hraw, List.cons_append])).1
  have hsolid : c ≠ ' ' ∧ c ≠ '\n' := by
    rw [← not_or, ← isGap_eq_true_iff, hc]
    simp
  refine List.countP_pos_iff.mpr ⟨c, ?_, by simpa using hsolid⟩
  rw [Piece.text, hraw]
  simp

theorem Advance.solidCount (h : Advance source before a after) :
    before.solidCount + a.token?.toList.length ≤ after.solidCount := by
  cases h with
  | token _ hp =>
    have hpos := hp.solidCount_pos
    rw [solidCount_append]
    exact Nat.add_le_add_left hpos _
  | finished => exact solidCount_le (List.prefix_append _ _)
  | failed => exact solidCount_le (List.prefix_append _ _)

/-! ## Runs -/

theorem Course.solidCount (h : Course source as before) :
    (as.filterMap Step.token?).length ≤ before.solidCount := by
  induction h with
  | start => exact Nat.le_refl 0
  | step _ ha ih =>
    have hstep := ha.solidCount
    rw [Step.tokens_concat, List.length_append]
    omega

end

namespace Stream

/-- Reading to the end takes one step more than there are tokens, and the last one answers no token. -/
theorem run_drain (s : Stream) : s.run (s.drain.tokens.length + 1) =
    (s.drain.tokens.map .token ++ [s.drain.ending], s.drain.stream) := by
  induction h : s.rest.length using Nat.strongRecOn generalizing s with
  | ind n ih =>
    rw [run_succ', drain_eq]
    cases hnext : s.next with
    | mk a s' =>
      cases a with
      | token t => simp [ih _ (h ▸ rest_length_next_lt hnext) s' rfl, Drained.ending]
      | finished => rfl
      | failed e => rfl

theorem Drained.ending_token? (d : Drained) : d.ending.token? = none := by
  unfold ending
  cases d.error? <;> rfl

theorem length_drain_le (source : Text) : (ofText source).drain.tokens.length ≤ source.solidCount := by
  obtain ⟨before, hc, -⟩ := course_run source ((ofText source).drain.tokens.length + 1)
  have hsolid := hc.solidCount
  have htokens : (ofText source).drain.tokens.filterMap (Step.token? ∘ .token) = (ofText source).drain.tokens :=
    List.filterMap_some
  rw [run_drain, Step.tokens_concat, List.filterMap_map, htokens, List.length_append] at hsolid
  have hprefix := solidCount_le hc.isPrefix
  omega

end Stream

/-- **Progress.** From wherever a run has come to, a token moves the cursor forward and not past the end
of the text, and finitely many steps bring an answer that is no token. A text has no more tokens than
characters other than spaces and newlines. -/
theorem run_progresses (source : Text) (n : Nat) :
    let r := (Stream.ofText source).run n
    let s := r.2
    (∀ t s', s.next = (.token t, s') → t.Moves source s.cursor s'.cursor) ∧
      s.run (s.drain.tokens.length + 1) = (s.drain.tokens.map .token ++ [s.drain.ending], s.drain.stream) ∧
      s.drain.ending.token? = none ∧
      (r.1.filterMap Step.token?).length + s.drain.tokens.length ≤ source.solidCount := by
  intro r s
  obtain ⟨before, -, hs⟩ := Stream.course_run source n
  refine ⟨fun t s' hnext => ?_, s.run_drain, s.drain.ending_token?, ?_⟩
  · have hnext' : ((Stream.ofText source).run n).2.next = (.token t, s') := hnext
    obtain ⟨after, ha, hs'⟩ := hs.next
    rw [hnext'] at ha hs'
    rw [hs.cursor_eq, hs'.cursor_eq]
    exact ha.moves
  · rw [← List.length_append, Stream.run_append_drain]
    exact Stream.length_drain_le source

/-- A string of blanks behind a name, a minus sign, and a quote that fails. -/
theorem run_progresses_blank_string :
    let source := ['x', ' ', '"', ' ', '\n', '"', '-', '"']
    let s := ((Stream.ofText source).run 1).2
    let t : Token := ⟨.string [], ['"', ' ', '\n', '"'], ⟨1, 3, 2⟩, ⟨2, 2, 6⟩⟩
    (s.next = (.token t, s.next.2) ∧ t.Moves source 1 6) ∧
      (s.run 3).1 = s.drain.tokens.map .token ++ [s.drain.ending] ∧ 1 + s.drain.tokens.length ≤ 5 := by
  intro source s t
  have hnext : s.next = (.token t, s.next.2) := by decide
  have hlength : s.drain.tokens.length = 2 := by decide +kernel
  obtain ⟨hmoves, hrun, -, hcount⟩ := run_progresses source 1
  rw [show ((Stream.ofText source).run 1).2.drain.tokens.length = 2 from hlength] at hrun hcount
  exact ⟨⟨hnext, hmoves t _ hnext⟩, congrArg Prod.fst hrun, hlength ▸ hcount⟩

end MathTokens
