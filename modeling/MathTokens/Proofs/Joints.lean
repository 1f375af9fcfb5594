import MathTokens.Proofs.Decomposition
import MathTokens.Proofs.Shifts

/-!
# Texts joined at a breakpoint

A lexeme may still stand where it stood when a text that starts with a breakpoint is put behind what
follows it. So a text that has tokens keeps them when it is joined to another one by a gap or by a
symbol other than the minus sign, and behind the joint the other text is read as if it stood alone.
A minus sign is no joint: it may be the sign of digits that the other text starts with.
-/

namespace MathTokens

/-- The character `c` joins a text to `a`, and the tokens `between` are read for it. -/
inductive Joins (a : Text) : Char → List Token → Prop
  | gap {c} : c = ' ' ∨ c = '\n' → Joins a c []
  | symbol {c} : c = ';' ∨ c = '+' ∨ c = '=' →
      Joins a c [⟨.symbol c, [c], .after a, .after (a ++ [c])⟩]

/-! ## A breakpoint behind the text -/

section
variable {l : Lexeme} {ps : List Piece} {t u run more rest : Text}

theorem AtBreak.append_atBreak (h : AtBreak t) (hu : AtBreak u) : AtBreak (t ++ u) := by
  by_cases ht : t = []
  · rw [ht]
    exact hu
  · exact h.append ht u

theorem Cut.append_atBreak (h : Cut t run more) (hu : AtBreak u) : Cut (t ++ u) run (more ++ u) where
  eq := by rw [h.eq, List.append_assoc]
  free := h.free
  stops := h.stops.append_atBreak hu

theorem Stands.append_atBreak (h : Stands l rest) (hu : AtBreak u) : Stands l (rest ++ u) := by
  refine h.stands_iff.mpr ⟨fun hk => (h.atBreak hk).append_atBreak hu, fun hraw => ?_⟩
  rw [((cut_takeWhile rest).append_atBreak hu).takeWhile_eq]
  exact h.not_isDecimal_minus hraw

theorem Reads.append_atBreak (h : Reads ps t rest) (hu : AtBreak u) : Reads ps (t ++ u) (rest ++ u) := by
  induction h with
  | nil => exact .nil
  | cons hp _ ih =>
    exact .cons ⟨by rw [hp.eq, List.append_assoc], hp.gap, hp.stands.append_atBreak hu⟩ ih

end

/-! ## A gap behind the cursor -/

namespace Stream

def passGap (s : Stream) (g : Text) : Stream :=
  { s with passed := s.passed ++ g, rest := s.rest.drop g.length }

section
variable {source before g rest : Text} {s : Stream}

theorem drain_passGap (hg : IsGap g) (hr : s.rest = g ++ rest) : (s.passGap g).drain = s.drain := by
  have hall : ∀ c ∈ g, isGap c := fun c hc => isGap_eq_true_iff.mpr (hg c hc)
  have hskip : (s.passGap g).skipGap = s.skipGap := by
    unfold passGap skipGap
    simp only [hr, List.drop_left, List.takeWhile_append_of_pos hall, List.dropWhile_append_of_pos hall,
      List.append_assoc]
  have hnext : (s.passGap g).next = s.next := by
    unfold next
    rw [hskip]
  rw [drain_eq, drain_eq s, hnext]

theorem At.passGap (h : s.At source before) (hr : s.rest = g ++ rest) :
    (s.passGap g).At source (before ++ g) := by
  obtain ⟨marked, hb, hm⟩ := h.mark
  refine ⟨h.source_eq, ?_, marked, ?_, hm⟩
  · rw [h.split, Stream.passGap, hr, List.drop_left, List.append_assoc]
  · rw [hb, Stream.passGap, List.append_assoc]

end

end Stream

/-! ## The joint -/

theorem Joins.atBreak {a b : Text} {c : Char} {between : List Token} (h : Joins a c between) :
    AtBreak (c :: b) := by
  intro d hd
  obtain rfl : c = d := by simpa using hd
  cases h with
  | gap hc => rcases hc with rfl | rfl <;> simp [IsBreak]
  | symbol hc => rcases hc with rfl | rfl | rfl <;> simp [IsBreak]

theorem Decomposes.past_joint {a last b : Text} {c : Char} {ps : List Piece} {between : List Token}
    (h : Decomposes a ps last) (hc : Joins a c between) :
    ∃ s : Stream, s.At (a ++ c :: b) (a ++ [c]) ∧
      (Stream.ofText (a ++ c :: b)).drain.tokens = Piece.tokens [] ps ++ between ++ s.drain.tokens ∧
      (Stream.ofText (a ++ c :: b)).drain.error? = s.drain.error? := by
  have hps : Reads ps (a ++ c :: b) (last ++ c :: b) := h.reads.append_atBreak hc.atBreak
  have hstart := Stream.at_ofText (a ++ c :: b)
  have ha : a = ps.flatMap Piece.text ++ last := h.reads.eq
  cases hc with
  | gap hc =>
    -- the joint only makes the last gap longer, so it is passed over apart from what follows it
    have hg : IsGap (last ++ [c]) := h.last.append (by simpa [IsGap] using hc)
    obtain ⟨hrun, hs, hrest⟩ := hstart.run_of_reads hps
    obtain ⟨ht, he⟩ := Stream.drain_of_run hrun
    have hrest' := hrest.trans (List.append_cons last c b)
    have hs' := hs.passGap hrest'
    rw [← Stream.drain_passGap hg hrest'] at ht he
    refine ⟨_, ?_, by rwa [List.append_nil], he⟩
    rwa [List.nil_append, ← List.append_assoc, ← ha] at hs'
  | symbol hc =>
    have hq : Piece.Opens ⟨last, .symbol c, [c]⟩ (last ++ c :: b) b :=
      ⟨by simp [Piece.text], h.last, .symbol hc⟩
    obtain ⟨hrun, hs, -⟩ := hstart.run_of_reads (hps.append (.cons hq .nil))
    obtain ⟨ht, he⟩ := Stream.drain_of_run hrun
    refine ⟨_, ?_, ?_, he⟩
    · rwa [List.nil_append, List.flatMap_append, List.flatMap_singleton, Piece.text, ← List.append_assoc,
        ← ha] at hs
    · rw [ht, Piece.tokens_append, List.nil_append, Piece.tokens, Piece.tokens, Piece.token, ← ha]
      rfl

theorem listOf_of_drain {source text before : Text} {ts : List Token}
    (ht : (Stream.ofText source).drain.tokens =
      ts ++ (Stream.ofText text).drain.tokens.map (Token.shift before))
    (he : (Stream.ofText source).drain.error? =
      (Stream.ofText text).drain.error?.map (Malformed.shift before)) :
    (∀ us, Token.listOf text = .ok us →
      Token.listOf source = .ok (ts ++ us.map (Token.shift before))) ∧
    ∀ e, Token.listOf text = .error e → Token.listOf source = .error (e.shift before) := by
  unfold Token.listOf
  simp only [ht, he]
  cases (Stream.ofText text).drain.error? with
  | none => simp
  | some e => simp

/-- **Joints.** A text that has tokens and a text joined to it by a gap or a symbol have the tokens of
the one, the token of the symbol, and the tokens of the other, shifted. Reading fails exactly if the
other text fails, and there. -/
theorem listOf_append_break {a b : Text} {c : Char} {ts between : List Token}
    (ha : Token.listOf a = .ok ts) (hc : Joins a c between) :
    (∀ us, Token.listOf b = .ok us →
      Token.listOf (a ++ c :: b) = .ok (ts ++ between ++ us.map (Token.shift (a ++ [c])))) ∧
    (∀ e, Token.listOf b = .error e → Token.listOf (a ++ c :: b) = .error (e.shift (a ++ [c]))) ∧
    ((∃ e, Token.listOf (a ++ c :: b) = .error e) ↔ ∃ e, Token.listOf b = .error e) := by
  obtain ⟨ps, last, hd, rfl⟩ := exists_decomposes ha
  obtain ⟨s, hs, ht, he⟩ := hd.past_joint (b := b) hc
  have hs' : s.At (a ++ [c] ++ b) (a ++ [c] ++ []) := by
    rwa [List.append_nil, ← List.append_cons]
  obtain ⟨ht', he'⟩ := hs'.drain_shift (Stream.at_ofText b)
  rw [ht'] at ht
  rw [he'] at he
  obtain ⟨hok, herror⟩ := listOf_of_drain ht he
  refine ⟨hok, herror, ?_⟩
  constructor
  · rintro ⟨e, hab⟩
    cases hb : Token.listOf b with
    | ok us =>
      rw [hok us hb] at hab
      cases hab
    | error e' => exact ⟨e', rfl⟩
  · rintro ⟨e, hb⟩
    exact ⟨_, herror e hb⟩

/-- A minus sign before the joint, digits behind it, and a string that is not closed on the next line. -/
theorem listOf_append_break_open_string :
    let a := ['x', '\n', '-']
    let b := ['5', '\n', '"']
    let ts : List Token := [⟨.name ['x'], ['x'], ⟨1, 1, 0⟩, ⟨1, 2, 1⟩⟩, ⟨.symbol '-', ['-'], ⟨2, 1, 2⟩, ⟨2, 2, 3⟩⟩]
    Token.listOf a = .ok ts ∧ Joins a ';' [⟨.symbol ';', [';'], ⟨2, 2, 3⟩, ⟨2, 3, 4⟩⟩] ∧
      Token.listOf (a ++ ';' :: b) = .error ⟨.unterminatedString, ⟨3, 1, 6⟩, a ++ ';' :: b⟩ := by
  intro a b ts
  have ha : Token.listOf a = .ok ts := by decide +kernel
  have hc : Joins a ';' [⟨.symbol ';', [';'], ⟨2, 2, 3⟩, ⟨2, 3, 4⟩⟩] := .symbol (.inl rfl)
  have hb : Token.listOf b = .error ⟨.unterminatedString, ⟨2, 1, 2⟩, b⟩ := by decide +kernel
  exact ⟨ha, hc, (listOf_append_break ha hc).2.1 _ hb⟩

end MathTokens
