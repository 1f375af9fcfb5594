import MathTokens.Position
import MathTokens.Text.Line

/-!
# Malformed input

The error of a text that cannot be cut into tokens says what is wrong and where, and keeps the text
so that a report can show the line at fault. A report has five lines: what is wrong, where, and the
excerpt between bars with carets from the fault to the end of its line. A report can be asked for at
a place that is too far out to be drawn.
-/

namespace MathTokens

inductive Cause where
  | unterminatedString
  | missingSource
  | other (message : Text)
deriving DecidableEq

def Cause.message : Cause → Text
  | unterminatedString => "unterminated string literal".toList
  | missingSource => "source must not be None".toList
  | other m => m

/-- Where something is wrong, as any three integers. -/
structure Place where
  line : Int
  column : Int
  offset : Int
deriving DecidableEq

def Position.toPlace (p : Position) : Place :=
  ⟨p.line, p.column, p.offset⟩

structure Malformed where
  cause : Cause
  place : Place
  source : Text
deriving DecidableEq

inductive Undrawable where
  /-- The length of a row is no signed number of 64 bits. -/
  | uncountable
  /-- A row does not fit into memory. -/
  | tooLong
deriving DecidableEq

/-- What is said about a report that cannot be drawn. Where memory is short nothing is said. -/
def Undrawable.message : Undrawable → Text
  | uncountable => "cannot fit 'int' into an index-sized integer".toList
  | tooLong => []

namespace Malformed

def ofMissingSource : Malformed :=
  ⟨.missingSource, LineMark.start.position.toPlace, []⟩

def sourceLine (e : Malformed) : Text :=
  e.source.lineAt e.place.offset

def caretCount (e : Malformed) : Nat :=
  (max 1 ((e.sourceLine.length : Int) - e.place.column + 1)).toNat

def reportLines (e : Malformed) (file : Text) : List Text :=
  let number := Text.ofInt e.place.line
  let gutter := List.replicate number.length ' '
  [ "error: ".toList ++ e.cause.message,
    gutter ++ "--> ".toList ++ file ++ ':' :: number ++ ':' :: Text.ofInt e.place.column,
    gutter ++ " |".toList,
    number ++ " | ".toList ++ e.sourceLine,
    gutter ++ " | ".toList ++ List.replicate (e.place.column - 1).toNat ' ' ++
      List.replicate e.caretCount '^' ]

def report (e : Malformed) (file : Text) : Text :=
  ['\n'].intercalate (e.reportLines file)

/-- The longest row of one character that memory is taken to hold. The program sets no such limit: the
number is chosen, and stands for the memory of the machine that it runs on. -/
def rowLimit : Nat := Nat.pow 2 24

/-- Refuses a row of `n` characters that cannot be drawn. A row of fewer than none is empty. -/
def checkRow (n : Int) : Except Undrawable Unit :=
  if n < -(Nat.pow 2 63 : Nat) ∨ (Nat.pow 2 63 : Nat) ≤ n then .error .uncountable
  else if rowLimit < n then .error .tooLong
  else .ok ()

def drawReport (e : Malformed) (file : Text) : Except Undrawable Text := do
  checkRow (e.place.column - 1)
  checkRow e.caretCount
  return e.report file

def unnamedFile : Text := "input.mlang".toList

end Malformed

end MathTokens
