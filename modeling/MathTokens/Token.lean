import MathTokens.Lexeme
import MathTokens.Position

/-!
# Tokens

A token is a lexeme with the positions of its two ends.
-/

namespace MathTokens

structure Token where
  content : Content
  raw : Text
  start : Position
  stop : Position
deriving DecidableEq

namespace Token

def ofLexeme (m : LineMark) (l : Lexeme) : Token :=
  ⟨l.content, l.raw, m.position, (m.pass l.raw).position⟩

/-- Equality of tokens that are not told apart by the sign of a zero. -/
def same (s t : Token) : Bool :=
  s.content.kind == t.content.kind && s.content.value.same t.content.value && s.raw == t.raw &&
    s.start == t.start && s.stop == t.stop

def sameList : List Token → List Token → Bool
  | [], [] => true
  | s :: ss, t :: ts => s.same t && sameList ss ts
  | _, _ => false

end Token

end MathTokens
