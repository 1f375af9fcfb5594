import MathTokens.Text.Utf8

/-!
# Percent escapes

A percent sign and two hexadecimal digits stand for a byte. A percent sign without them stands for
itself. The bytes of a text are resolved all together, so that a character may be spelled by several
escapes.
-/

namespace MathTokens.Percent

def hexDigit? (b : UInt8) : Option Nat :=
  let n := b.toNat
  if 0x30 ≤ n ∧ n ≤ 0x39 then some (n - 0x30)
  else if 0x41 ≤ n ∧ n ≤ 0x46 then some (n - 0x41 + 10)
  else if 0x61 ≤ n ∧ n ≤ 0x66 then some (n - 0x61 + 10)
  else none

def escaped? (a b : UInt8) : Option UInt8 := do
  return Utf8.byte (16 * (← hexDigit? a) + (← hexDigit? b))

def resolve : Utf8.Bytes → Utf8.Bytes
  | b :: high :: low :: bs =>
    match if b = 0x25 then escaped? high low else none with
    | some byte => byte :: resolve bs
    | none => b :: resolve (high :: low :: bs)
  | bs => bs

def decode (t : Text) : Text :=
  Utf8.decodeLossy (resolve (Utf8.encode t))

end MathTokens.Percent
