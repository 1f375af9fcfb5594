import MathTokens.Malformed
import MathTokens.Token

/-!
# Token streams

A stream reads the tokens of a text one after another. It keeps what is left to read, and the last
point whose line it has worked out; the text between that point and the cursor is kept too, and is
only searched for newlines when a position is asked for.

`next` goes past one token. At the end it answers `finished` and at a string that is not closed
`failed`, and then stays where it is. `drain` reads until one of the two.
-/

namespace MathTokens

structure Stream where
  source : Text
  mark : LineMark
  passed : Text
  rest : Text
deriving DecidableEq

inductive Step where
  | token (t : Token)
  | finished
  | failed (e : Malformed)
deriving DecidableEq

namespace Stream

def ofText (source : Text) : Stream :=
  ⟨source, .start, [], source⟩

def cursor (s : Stream) : Nat :=
  s.mark.offset + s.passed.length

/-- The mark brought up to the cursor. -/
def here (s : Stream) : LineMark :=
  s.mark.pass s.passed

/-- Moves over the gap at the cursor. The mark stays behind. -/
def skipGap (s : Stream) : Stream :=
  { s with passed := s.passed ++ s.rest.takeWhile isGap, rest := s.rest.dropWhile isGap }

def take (s : Stream) (raw : Text) : Stream :=
  { s with mark := s.here.pass raw, passed := [], rest := s.rest.drop raw.length }

def next (s : Stream) : Step × Stream :=
  let s := s.skipGap
  match s.rest with
  | [] => (.finished, s)
  | c :: rest =>
    match Lexeme.read? c rest with
    | some l => (.token (.ofLexeme s.here l), s.take l.raw)
    | none => (.failed ⟨.unterminatedString, s.here.position.toPlace, s.source⟩, s.take [])

/-! ## Reading to the end -/

/-- A token makes what is left to read shorter, so reading to the end comes to an end. -/
theorem rest_length_next_lt {s s' : Stream} {t : Token} (h : s.next = (.token t, s')) :
    s'.rest.length < s.rest.length := by
  have skip : s.skipGap.rest.length ≤ s.rest.length := (List.dropWhile_suffix _).length_le
  unfold next at h
  dsimp only at h
  split at h
  · cases h
  · next c rest hrest =>
    split at h
    · next l hl =>
      cases h
      have : 0 < l.raw.length := List.length_pos_iff.mpr (Lexeme.raw_ne_nil hl)
      rw [hrest] at skip
      simp only [take, List.length_drop, hrest, List.length_cons] at skip ⊢
      omega
    · cases h

structure Drained where
  tokens : List Token
  error? : Option Malformed
  stream : Stream

/-- Reads to the end, after `tokens` that were read before, the latest first. -/
def drainAfter (tokens : List Token) (s : Stream) : Drained :=
  match _h : s.next with
  | (.token t, s') => drainAfter (t :: tokens) s'
  | (.finished, s') => ⟨tokens.reverse, none, s'⟩
  | (.failed e, s') => ⟨tokens.reverse, some e, s'⟩
termination_by s.rest.length
decreasing_by exact rest_length_next_lt ‹_›

def drain (s : Stream) : Drained :=
  s.drainAfter []

theorem drainAfter_eq (tokens : List Token) (s : Stream) :
    s.drainAfter tokens = { s.drain with tokens := tokens.reverse ++ s.drain.tokens } := by
  induction h : s.rest.length using Nat.strongRecOn generalizing s tokens with
  | ind n ih =>
    unfold drain
    rw [drainAfter, drainAfter]
    split
    · next t s' hs =>
      have lt := rest_length_next_lt hs
      rw [ih _ (h ▸ lt) (t :: tokens) s' rfl, ih _ (h ▸ lt) [t] s' rfl]
      simp
    · simp
    · simp

theorem drain_eq (s : Stream) :
    s.drain = match s.next with
      | (.token t, s') => { s'.drain with tokens := t :: s'.drain.tokens }
      | (.finished, s') => ⟨[], none, s'⟩
      | (.failed e, s') => ⟨[], some e, s'⟩ := by
  rw [drain, drainAfter]
  split
  · next h => rw [h, drainAfter_eq]; simp
  · next h => rw [h]; simp
  · next h => rw [h]; simp

end Stream

def Token.listOf (source : Text) : Except Malformed (List Token) :=
  let d := (Stream.ofText source).drain
  match d.error? with
  | none => .ok d.tokens
  | some e => .error e

end MathTokens
