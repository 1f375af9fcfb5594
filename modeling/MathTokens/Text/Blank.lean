import MathTokens.Text.Basic

/-!
# Blank characters

The characters that padding is made of: every Unicode space and line end, and the four ASCII
separators. A text is trimmed of them at both ends.
-/

namespace MathTokens.Text

def blankRanges : List (Nat × Nat) :=
  [(0x09, 0x0d), (0x1c, 0x20), (0x85, 0x85), (0xa0, 0xa0), (0x1680, 0x1680), (0x2000, 0x200a),
   (0x2028, 0x2029), (0x202f, 0x202f), (0x205f, 0x205f), (0x3000, 0x3000)]

def isBlank (c : Char) : Bool :=
  inRanges blankRanges c.toNat

def trim (t : Text) : Text :=
  dropEndWhile isBlank (t.dropWhile isBlank)

end MathTokens.Text
