import MathTokens.Toml.Basic

/-!
# Characters, blanks and comments of TOML
-/

namespace MathTokens.Toml

def isSpace (c : Char) : Bool :=
  c = ' ' || c = '\t'

def isSpaceOrNewline (c : Char) : Bool :=
  isSpace c || c = '\n'

def isControl (c : Char) : Bool :=
  c.toNat < 0x20 || c.toNat = 0x7f

def isIllegalInLine (c : Char) : Bool :=
  isControl c && c ≠ '\t'

def isIllegalInLines (c : Char) : Bool :=
  isControl c && c ≠ '\t' && c ≠ '\n'

def isBareKeyCharacter (c : Char) : Bool :=
  c.isAlphanum || c = '-' || c = '_'

def isHexDigit (c : Char) : Bool :=
  c.isDigit || ('a' ≤ c && c ≤ 'f') || ('A' ≤ c && c ≤ 'F')

def hexValue (c : Char) : Nat :=
  if c.isDigit then c.toNat - '0'.toNat
  else if 'a' ≤ c then c.toNat - 'a'.toNat + 10
  else c.toNat - 'A'.toNat + 10

def ofDigits (base : Nat) (digits : Text) : Nat :=
  digits.foldl (fun n c => base * n + hexValue c) 0

def skipSpace (t : Text) : Text :=
  t.dropWhile isSpace

def isComment (t : Text) : Bool :=
  !(t.takeWhile (· ≠ '\n')).any isIllegalInLine

def skipComment : Text → Except Failure Text
  | '#' :: t => if isComment t then .ok (t.dropWhile (· ≠ '\n')) else .error .malformed
  | t => .ok t

def skipFiller (t : Text) : Except Failure Text :=
  match _h : t.dropWhile isSpaceOrNewline with
  | '#' :: r => if isComment r then skipFiller (r.dropWhile (· ≠ '\n')) else .error .malformed
  | r => .ok r
termination_by t.length
decreasing_by
  have h₁ := (List.dropWhile_suffix isSpaceOrNewline (l := t)).length_le
  have h₂ := (List.dropWhile_suffix (· ≠ '\n') (l := r)).length_le
  rw [‹t.dropWhile isSpaceOrNewline = _›, List.length_cons] at h₁
  exact Nat.lt_of_le_of_lt h₂ h₁

end MathTokens.Toml
