/-!
# Binary64 values

The magnitudes of the doubles stand in one increasing row: zero, the subnormal numbers, the normal
numbers binade by binade, and infinity. A value is a sign and a place in that row, its *rank*. The
rank of a magnitude is the number its sixty-three low bits spell, so equal values here are equal
bit patterns.
-/

namespace MathTokens

/-- The place of infinity: every finite double has an exponent field below 2047. -/
def Binary64.infinityRank : Nat := 2047 * Nat.pow 2 52

/-- A double, NaN excepted. -/
structure Binary64 where
  negative : Bool
  rank : Nat
  rank_le : rank ≤ Binary64.infinityRank
deriving DecidableEq

namespace Binary64

def zero (negative : Bool) : Binary64 :=
  ⟨negative, 0, Nat.zero_le _⟩

def infinity (negative : Bool) : Binary64 :=
  ⟨negative, infinityRank, Nat.le_refl _⟩

def isFinite (x : Binary64) : Bool :=
  x.rank < infinityRank

/-- The magnitude of a rank in units of `2 ^ -1074`, the least positive double. Infinity counts as
the power of two that follows the largest finite double. -/
def units (rank : Nat) : Nat :=
  if rank < Nat.pow 2 52 then rank
  else (Nat.pow 2 52 + rank % Nat.pow 2 52) * Nat.pow 2 (rank / Nat.pow 2 52 - 1)

/-- Equality of numbers: the two zeros are one number. -/
def sameNumber (x y : Binary64) : Bool :=
  x.rank == y.rank && (x.rank == 0 || x.negative == y.negative)

end Binary64

end MathTokens
