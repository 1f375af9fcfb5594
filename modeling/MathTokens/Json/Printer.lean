import MathTokens.Binary64.Printer
import MathTokens.Json.Basic

/-!
# The written form of JSON

Every item of an array and every member of an object has a line of its own, two spaces deeper than
the brackets around it. Only printable ASCII is written as it is; every other unit of a string is
escaped. The infinite numbers, for which JSON has no form, are written as words.
-/

namespace MathTokens.Json

def shortEscapes : List (Char × Char) :=
  [('"', '"'), ('\\', '\\'), ('\n', 'n'), ('\r', 'r'), ('\t', 't'), ('\x0c', 'f'), ('\x08', 'b')]

def escapeUnit (u : UInt16) : Text :=
  '\\' :: 'u' :: Text.digits 16 4 u.toNat

def escape (u : UInt16) : Text :=
  match shortEscapes.find? (·.1.toNat = u.toNat) with
  | some e => ['\\', e.2]
  | none => if 0x20 ≤ u.toNat ∧ u.toNat < 0x7f then [Char.ofNat u.toNat] else escapeUnit u

def stringText (us : Utf16.Units) : Text :=
  '"' :: us.flatMap escape ++ ['"']

def realText (x : Binary64) : Text :=
  if x.isFinite then x.toText
  else if x.negative then "-Infinity".toList
  else "Infinity".toList

def newline (depth : Nat) : Text :=
  '\n' :: List.replicate (2 * depth) ' '

mutual

/-- The written form of a value whose first line stands at a depth. -/
def toText (depth : Nat) : Json → Text
  | string us => stringText us
  | integer n => Text.ofNat n
  | real x => realText x
  | array [] => ['[', ']']
  | array (j :: js) =>
    '[' :: newline (depth + 1) ++ toText (depth + 1) j ++ itemsText (depth + 1) js ++
      newline depth ++ [']']
  | object [] => ['{', '}']
  | object ((key, j) :: ms) =>
    '{' :: newline (depth + 1) ++ stringText key ++ ':' :: ' ' :: toText (depth + 1) j ++
      membersText (depth + 1) ms ++ newline depth ++ ['}']

/-- The items of an array after its first. -/
def itemsText (depth : Nat) : List Json → Text
  | [] => []
  | j :: js => ',' :: newline depth ++ toText depth j ++ itemsText depth js

def membersText (depth : Nat) : List (Utf16.Units × Json) → Text
  | [] => []
  | (key, j) :: ms =>
    ',' :: newline depth ++ stringText key ++ ':' :: ' ' :: toText depth j ++ membersText depth ms

end

end MathTokens.Json
