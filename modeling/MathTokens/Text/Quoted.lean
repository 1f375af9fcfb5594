import MathTokens.Text.Printable

/-!
# Quoted text

A text is shown between apostrophes, or between double quotes if it holds an apostrophe and no
double quote. Inside, the backslash and the quote in use are escaped; so is every character that
cannot be printed, by the name of a tab or a line end or else by the shortest hexadecimal form that
fits its code point.
-/

namespace MathTokens.Text

def apostrophe : Char := '\x27'

def doubleQuote : Char := '"'

def quoteFor (t : Text) : Char :=
  if t.contains apostrophe && !t.contains doubleQuote then doubleQuote else apostrophe

def hexEscape (c : Char) : Text :=
  let n := c.toNat
  if n < 0x100 then '\\' :: 'x' :: digits 16 2 n
  else if n < 0x10000 then '\\' :: 'u' :: digits 16 4 n
  else '\\' :: 'U' :: digits 16 8 n

def escape (q c : Char) : Text :=
  if c = q ∨ c = '\\' then ['\\', c]
  else if c = '\t' then ['\\', 't']
  else if c = '\n' then ['\\', 'n']
  else if c = '\r' then ['\\', 'r']
  else if isPrintable c then [c]
  else hexEscape c

def quoted (t : Text) : Text :=
  let q := t.quoteFor
  q :: t.flatMap (escape q) ++ [q]

end MathTokens.Text
