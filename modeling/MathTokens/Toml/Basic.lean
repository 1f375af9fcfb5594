import MathTokens.Binary64.Basic
import MathTokens.Text.Basic

/-!
# TOML values

A document is a table, whose entries keep the order in which they were made.
-/

namespace MathTokens

structure Date where
  year : Nat
  month : Nat
  day : Nat
deriving DecidableEq

structure TimeOfDay where
  hour : Nat
  minute : Nat
  second : Nat
  microsecond : Nat
deriving DecidableEq

/-- A date, a time, or both with an optional offset from universal time in minutes. -/
inductive Moment where
  | date (d : Date)
  | time (t : TimeOfDay)
  | dateTime (d : Date) (t : TimeOfDay) (offset? : Option Int)
deriving DecidableEq

inductive Toml where
  | bool (value : Bool)
  | integer (value : Int)
  | float (value : Binary64)
  | nan
  | string (value : Text)
  | moment (value : Moment)
  | array (items : List Toml)
  | table (entries : List (Text × Toml))

namespace Toml

abbrev Table := List (Text × Toml)

abbrev Key := List Text

inductive Failure where
  | malformed
  | longInteger (digits : Nat)
  | deepNesting
deriving DecidableEq

inductive Unshowable where
  | longInteger
  | deepNesting
deriving DecidableEq

/-- How many decimal digits the runtime turns into an integer, or an integer into. -/
def digitLimit : Nat := 4300

def depthMessage : Text := "maximum recursion depth exceeded".toList

def digitsMessage (detail : Text) : Text :=
  "Exceeds the limit (".toList ++ Text.ofNat digitLimit ++
    " digits) for integer string conversion".toList ++ detail ++
    "; use sys.set_int_max_str_digits() to increase the limit".toList

def Failure.message : Failure → Text
  | malformed => "TOMLDecodeError".toList
  | longInteger n => digitsMessage (": value has ".toList ++ Text.ofNat n ++ " digits".toList)
  | deepNesting => depthMessage

def Unshowable.message : Unshowable → Text
  | longInteger => digitsMessage []
  | deepNesting => depthMessage ++ " while getting the repr of an object".toList

def isContainer : Toml → Bool
  | array _ => true
  | table _ => true
  | _ => false

end Toml

end MathTokens
