import MathTokens.Binary64.Printer
import MathTokens.Text.Quoted
import MathTokens.Token

/-!
# Token lists as lines

Each token has one line: its kind, its value, and on request where it starts. Texts are quoted, so
that no line is broken.
-/

namespace MathTokens

def Content.valueText : Content → Text
  | .number x => x.toText
  | .string t => Text.quoted t
  | .name t => Text.quoted t
  | .symbol c => Text.quoted [c]

namespace Token

def placeText (t : Token) : Text :=
  ' ' :: '@' :: Text.ofNat t.start.line ++ ':' :: Text.ofNat t.start.column

def line (places : Bool) (t : Token) : Text :=
  t.content.kind.label ++ ' ' :: t.content.valueText ++ if places then t.placeText else []

def lines (places : Bool) (ts : List Token) : Text :=
  ts.flatMap fun t => t.line places ++ ['\n']

end Token

end MathTokens
