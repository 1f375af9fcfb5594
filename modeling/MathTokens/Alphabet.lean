import MathTokens.Text.Basic

/-!
# The alphabet

Spaces and newlines make gaps. Four characters are symbols. Either kind is a breakpoint: it ends a
number or a name that stands before it.
-/

namespace MathTokens

def symbols : List Char := ['+', '-', ';', '=']

def gapCharacters : List Char := ['\n', ' ']

def quote : Char := '"'

def isSymbol (c : Char) : Bool :=
  symbols.contains c

def isGap (c : Char) : Bool :=
  gapCharacters.contains c

def isBreakpoint (c : Char) : Bool :=
  isGap c || isSymbol c

def Text.isOne (p : Char → Bool) : Text → Bool
  | [c] => p c
  | _ => false

end MathTokens
