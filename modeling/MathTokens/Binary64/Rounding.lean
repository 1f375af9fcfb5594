import MathTokens.Binary64.Basic

/-!
# Rounding to binary64

A non-negative rational goes to the double nearest to it, and a half-way case to the one of even
significand. Since rank and significand have the same parity, and the ranks of a binade are
`2 ^ 52` apart from the next, rounding is one division: by the spacing of the doubles around the
quotient.
-/

namespace MathTokens.Binary64

def roundHalfEven (num den : Nat) : Nat :=
  let quotient := num / den
  let remainder := num % den
  if 2 * remainder < den ∨ 2 * remainder = den ∧ quotient % 2 = 0 then quotient else quotient + 1

/-- The rank nearest to `num / den` units. The doubles there are `2 ^ e` units apart. The row is
taken to go on past infinity. -/
def nearestRank (num den : Nat) : Nat :=
  let e := (num / den).log2 - 52
  e * Nat.pow 2 52 + roundHalfEven num (den * Nat.pow 2 e)

def ofRatio (negative : Bool) (num den : Nat) : Binary64 :=
  ⟨negative, min (nearestRank (num * Nat.pow 2 1074) den) infinityRank, Nat.min_le_right _ _⟩

/-- The double nearest to `coefficient * 10 ^ exponent`, with the given sign. Powers that only an
infinity or a zero can answer are not computed. -/
def ofScientific (negative : Bool) (coefficient : Nat) (exponent : Int) : Binary64 :=
  if coefficient = 0 then zero negative
  else match exponent with
    | .ofNat e => if 400 < e then infinity negative else ofRatio negative (coefficient * Nat.pow 10 e) 1
    | .negSucc e =>
      if coefficient.log2 + 400 < e then zero negative
      else ofRatio negative coefficient (Nat.pow 10 (e + 1))

end MathTokens.Binary64
