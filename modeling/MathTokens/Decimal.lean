import MathTokens.Binary64.Rounding
import MathTokens.Text.Basic

/-!
# Decimal literals

A decimal is an optional minus sign, then ASCII digits with at most one point among, before or
after them. It has no plus sign, no exponent, no separators and nothing around it.
-/

namespace MathTokens

/-- The number `coefficient / 10 ^ places`, negated if `negative`. -/
structure Decimal where
  negative : Bool
  coefficient : Nat
  places : Nat
deriving DecidableEq

namespace Decimal

def ofDigits (digits : Text) : Nat :=
  digits.foldl (fun n c => 10 * n + (c.toNat - '0'.toNat)) 0

def readUnsigned? (negative : Bool) (t : Text) : Option Decimal :=
  let whole := t.takeWhile Char.isDigit
  match t.dropWhile Char.isDigit with
  | [] => if whole.isEmpty then none else some ⟨negative, ofDigits whole, 0⟩
  | c :: fraction =>
    if c = '.' ∧ fraction.all Char.isDigit ∧ ¬(whole.isEmpty ∧ fraction.isEmpty) then
      some ⟨negative, ofDigits (whole ++ fraction), fraction.length⟩
    else none

def read? : Text → Option Decimal
  | '-' :: t => readUnsigned? true t
  | t => readUnsigned? false t

/-- The double nearest to the decimal. A zero keeps the sign. -/
def toBinary64 (d : Decimal) : Binary64 :=
  .ofRatio d.negative d.coefficient (Nat.pow 10 d.places)

end Decimal

end MathTokens
