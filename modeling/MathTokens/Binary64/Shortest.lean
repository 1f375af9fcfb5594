import MathTokens.Binary64.Rounding

/-!
# The shortest decimal that reads back

Of the decimals that round to a given double, the one on the coarsest grid of powers of ten has
the fewest digits. On each grid only the two neighbours of the value need a test: if any point of
the grid rounds to the double, so does one of them. The search starts at a power of ten above the
value and ends at the latest on the grid of `10 ^ -1074`, which holds every finite double.
-/

namespace MathTokens.Binary64

section
variable (unit : Nat)

def readsBack (rank m j : Nat) : Bool :=
  nearestRank (m * Nat.pow 10 j) unit == rank

/-- The two neighbours of `value` among the multiples of `spacing`, the nearer first, and of two as
near the even one. -/
def neighbours (value spacing : Nat) : List Nat :=
  let below := value / spacing
  let gap := value % spacing
  if 2 * gap < spacing ∨ 2 * gap = spacing ∧ below % 2 = 0 then [below, below + 1]
  else [below + 1, below]

def gridPoint? (rank j : Nat) : Option Nat :=
  (neighbours (units rank * unit) (Nat.pow 10 j)).find? (readsBack unit rank · j)

def searchGrids (rank : Nat) : Nat → Nat × Nat
  | 0 => (units rank * unit, 0)
  | j + 1 => ((gridPoint? unit rank (j + 1)).map (·, j + 1)).getD (searchGrids rank j)

end

/-- `2 ^ -1074` in units of `10 ^ -1074`. A finite magnitude is a whole number of these. -/
def decimalUnit : Nat := Nat.pow 5 1074

def shortest (rank : Nat) : Nat × Int :=
  let value := units rank * decimalUnit
  let found := searchGrids decimalUnit rank ((value.log2 + 1) * 30103 / 100000 + 1)
  (found.1, (found.2 : Int) - 1074)

end MathTokens.Binary64
