import MathTokens.Binary64.Basic
import MathTokens.Text.Utf16

/-!
# JSON values

The values that a token list is written with. Strings are made of UTF-16 units, and members of an
object keep their order.
-/

namespace MathTokens

inductive Json where
  | string (value : Utf16.Units)
  | integer (value : Nat)
  | real (value : Binary64)
  | array (items : List Json)
  | object (members : List (Utf16.Units × Json))

end MathTokens
