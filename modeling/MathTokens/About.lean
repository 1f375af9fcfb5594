import MathTokens.Text.Basic

/-!
# The program

What the program and its editor server call themselves.
-/

namespace MathTokens.About

def program : Text := "mathlang".toList

def version : Text := "0.1.0".toList

def server : Text := "mathlang-lsp".toList

end MathTokens.About
