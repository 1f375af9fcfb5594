import MathTokens.Text.Utf8

/-!
# Code points and UTF-16

A string in memory is a list of code points. Some of them, the surrogates, are no characters. UTF-16
writes a code point beyond the basic plane as a high and a low surrogate, and any other one as itself.
-/

namespace MathTokens

abbrev CodePoint := Fin 0x110000

abbrev Points := List CodePoint

namespace CodePoint

def ofChar (c : Char) : CodePoint :=
  ⟨c.toNat, c.valid.elim (fun h => Nat.lt_trans h (by decide)) And.right⟩

def isHigh (p : CodePoint) : Bool :=
  0xd800 ≤ p.val && p.val < 0xdc00

def isLow (p : CodePoint) : Bool :=
  0xdc00 ≤ p.val && p.val < 0xe000

/-- The character at a code point. A surrogate belongs to no class of characters that the program
asks for, and the character that stands in for it belongs to none either. -/
def character (p : CodePoint) : Char :=
  if p.isHigh || p.isLow then Utf8.replacement else Char.ofNat p.val

end CodePoint

def Text.points (t : Text) : Points :=
  t.map CodePoint.ofChar

def Points.text (w : Points) : Text :=
  w.map CodePoint.character

namespace Utf16

abbrev Units := List UInt16

def encodePoint (p : CodePoint) : Units :=
  let n := p.val
  if n < 0x10000 then [UInt16.ofNat n]
  else
    [UInt16.ofNat (0xd800 + (n - 0x10000) / 0x400), UInt16.ofNat (0xdc00 + (n - 0x10000) % 0x400)]

def encode (w : Points) : Units :=
  w.flatMap encodePoint

def ofText (t : Text) : Units :=
  encode t.points

end Utf16

end MathTokens
