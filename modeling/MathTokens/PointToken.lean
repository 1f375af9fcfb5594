import MathTokens.Text.Utf16
import MathTokens.Token

/-!
# Tokens of code points

The tokens of a source that may hold surrogates. A token of characters is such a token as well.
-/

namespace MathTokens

inductive PointValue where
  | text (value : Points)
  | number (value : Binary64)
deriving DecidableEq

structure PointToken where
  kind : Kind
  value : PointValue
  raw : Points
  start : Position
  stop : Position
deriving DecidableEq

def Value.points : Value → PointValue
  | text t => .text t.points
  | number x => .number x

def Token.points (t : Token) : PointToken :=
  ⟨t.content.kind, t.content.value.points, t.raw.points, t.start, t.stop⟩

end MathTokens
