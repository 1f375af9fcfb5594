import MathTokens.Text.Basic

/-!
# Line ends

Two ways of making line ends alike: one joins a carriage return to the newline after it, the other
also takes a lone carriage return for a line end.
-/

namespace MathTokens.Text

def joinLineEnds : Text → Text
  | [] => []
  | '\r' :: '\n' :: t => '\n' :: joinLineEnds t
  | c :: t => c :: joinLineEnds t

/-- Every line end is made a newline: CR LF, a lone CR, and LF. -/
def unifyLineEnds : Text → Text
  | [] => []
  | '\r' :: '\n' :: t => '\n' :: unifyLineEnds t
  | '\r' :: t => '\n' :: unifyLineEnds t
  | c :: t => c :: unifyLineEnds t

end MathTokens.Text
