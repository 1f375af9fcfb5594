import MathTokens.Alphabet
import MathTokens.Decimal
import MathTokens.Text.Blank

/-!
# Lexemes

A lexeme is the piece of text that stands for one token, with what it means. A quote opens a string
that runs to the next quote. Elsewhere the text is cut at the first breakpoint after its first
character, and the cut is a number, or else its first character is a symbol, or else all of it is a
name. A plus sign is always a symbol.
-/

namespace MathTokens

inductive Kind where
  | string
  | number
  | name
  | symbol
deriving DecidableEq

namespace Kind

def all : List Kind := [string, number, name, symbol]

def label : Kind → Text
  | string => "STRING".toList
  | number => "NUMBER".toList
  | name => "NAME".toList
  | symbol => "SYMBOL".toList

def code : Kind → Nat
  | string => 1
  | number => 2
  | name => 3
  | symbol => 4

end Kind

inductive Content where
  | string (value : Text)
  | number (value : Binary64)
  | name (value : Text)
  | symbol (value : Char)
deriving DecidableEq

inductive Value where
  | text (value : Text)
  | number (value : Binary64)

namespace Content

def value : Content → Value
  | string t => .text t
  | number x => .number x
  | name t => .text t
  | symbol c => .text [c]

def kind : Content → Kind
  | string _ => .string
  | number _ => .number
  | name _ => .name
  | symbol _ => .symbol

end Content

/-- A text never equals a number, and the two zeros are one number. -/
def Value.same : Value → Value → Bool
  | text s, text t => s == t
  | number x, number y => x.sameNumber y
  | _, _ => false

structure Lexeme where
  content : Content
  raw : Text
deriving DecidableEq

namespace Lexeme

def readString? (rest : Text) : Option Lexeme :=
  if rest.contains quote then
    let inner := rest.takeWhile (· ≠ quote)
    some ⟨.string (Text.trim inner), quote :: inner ++ [quote]⟩
  else none

def readWord (c : Char) (rest : Text) : Lexeme :=
  let cut := c :: rest.takeWhile (!isBreakpoint ·)
  match if c = '+' then none else Decimal.read? cut with
  | some d => ⟨.number d.toBinary64, cut⟩
  | none => if isSymbol c then ⟨.symbol c, [c]⟩ else ⟨.name cut, cut⟩

/-- The lexeme at the front of a text that starts with `c`, which is no gap. There is none only
where a string is not closed. -/
def read? (c : Char) (rest : Text) : Option Lexeme :=
  if c = quote then readString? rest else some (readWord c rest)

theorem raw_ne_nil {c : Char} {rest : Text} {l : Lexeme} (h : read? c rest = some l) :
    l.raw ≠ [] := by
  unfold read? readString? readWord at h
  split at h
  · split at h
    · cases h; simp
    · cases h
  · cases h
    dsimp only
    split
    · simp
    · split <;> simp

end Lexeme

end MathTokens
