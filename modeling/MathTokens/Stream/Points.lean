import MathTokens.PointToken
import MathTokens.Stream.Basic

/-!
# Reading code points

A source that holds surrogates is read as the characters that stand in for its code points. What the
tokens say in text is taken from the source itself.
-/

namespace MathTokens.Points

def isBlank (p : CodePoint) : Bool :=
  Text.isBlank p.character

def trim (w : Points) : Points :=
  ((w.dropWhile isBlank).reverse.dropWhile isBlank).reverse

def slice (w : Points) (i j : Nat) : Points :=
  (w.take j).drop i

/-- The value of a token, where `raw` is what it stands for in the source. -/
def valueOf (raw : Points) : Content → PointValue
  | .string _ => .text (trim raw.tail.dropLast)
  | .number x => .number x
  | .name _ => .text raw
  | .symbol _ => .text raw

/-- A token as the source `w` spells it. -/
def spell (w : Points) (t : Token) : PointToken :=
  let raw := w.slice t.start.offset t.stop.offset
  ⟨t.content.kind, valueOf raw t.content, raw, t.start, t.stop⟩

/-- All the tokens of a source, if it has no string that is left open. -/
def tokens? (w : Points) : Option (List PointToken) :=
  (Token.listOf w.text).toOption.map (List.map w.spell)

end MathTokens.Points
