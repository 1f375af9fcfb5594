import MathTokens.Binary64.Shortest
import MathTokens.Text.Basic

/-!
# The written form of a double

A double is written with the fewest digits that read back. The point is set in place where the
leading digit stands for `10 ^ -4` up to `10 ^ 15`, with at least one digit on each side; other
numbers carry an exponent of at least two digits and its sign.
-/

namespace MathTokens.Binary64

def isPositional (e : Int) : Bool :=
  -4 ≤ e && e < 16

def positional (digits : Text) (e : Int) : Text :=
  if e < 0 then '0' :: '.' :: List.replicate (-e - 1).toNat '0' ++ digits
  else
    let whole := e.toNat + 1
    if digits.length ≤ whole then
      digits ++ List.replicate (whole - digits.length) '0' ++ ['.', '0']
    else digits.take whole ++ '.' :: digits.drop whole

def scientific (digits : Text) (e : Int) : Text :=
  let fraction := digits.drop 1
  let exponent := Text.ofNat e.natAbs
  digits.take 1 ++ (if fraction.isEmpty then [] else '.' :: fraction) ++
    'e' :: (if e < 0 then '-' else '+') :: List.replicate (2 - exponent.length) '0' ++ exponent

def magnitudeText (rank : Nat) : Text :=
  if rank = 0 then ['0', '.', '0']
  else if infinityRank ≤ rank then ['i', 'n', 'f']
  else
    let decimal := shortest rank
    let digits := Text.ofNat decimal.1
    let e := decimal.2 + digits.length - 1
    if isPositional e then positional digits e else scientific digits e

def toText (x : Binary64) : Text :=
  if x.negative then '-' :: magnitudeText x.rank else magnitudeText x.rank

end MathTokens.Binary64
