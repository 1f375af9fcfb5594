import MathTokens.CommandLine.Misuse
import MathTokens.Text.Digit

/-!
# Words of the command line

Before any argument is used, each is told apart: a flag, a plain value, or an unknown option. A long
flag may be cut short as long as one spelling alone starts that way, and a value may be attached to
a flag: to any by `=`, to a short one also directly. A lone dash, a negative number and an unknown
option with a space in it are plain values. After the first `--` all words are plain.
-/

namespace MathTokens

inductive Word where
  /-- The first `--`. -/
  | separator
  | plain (text : Text)
  | flag (flag : Flag) (short : Bool) (attached? : Option Text)
  | unknown (text : Text)
deriving DecidableEq

namespace Word

/-- Whether `t` is written like a negative number: a minus sign, then digits, or digits with a point
before the last of them. A newline may follow. -/
def isNegativeNumber : Text → Bool
  | '-' :: t =>
    let t := if t.getLast? = some '\n' then t.dropLast else t
    match t.dropWhile Text.isDigitOfAnyScript with
    | [] => !t.isEmpty
    | c :: fraction => c = '.' && !fraction.isEmpty && fraction.all Text.isDigitOfAnyScript
  | _ => false

def ofUnknown (t : Text) : Word :=
  if isNegativeNumber t || t.contains ' ' then plain t else unknown t

def isShort (spelling : Text) : Bool :=
  spelling[1]? ≠ some '-'

def splitValue (t : Text) : Text × Option Text :=
  (t.takeWhile (· ≠ '='), (t.dropWhile (· ≠ '=')).tail?)

def attachedFlag? (t : Text) : Option Word :=
  match splitValue t with
  | (_, none) => none
  | (spelling, some value) => (Flag.ofSpelling? spelling).map (flag · (isShort spelling) (some value))

def ofAbbreviation (t : Text) : Except Misuse Word :=
  let (start, attached?) := splitValue t
  match Flag.completions start with
  | [] => .ok (ofUnknown t)
  | [(_, f)] => .ok (flag f false attached?)
  | several => .error (.ambiguous t (several.map (·.1)))

def ofCluster (t : Text) : Word :=
  match Flag.ofSpelling? (t.take 2) with
  | some f => flag f true (some (t.drop 2))
  | none => ofUnknown t

def ofText (t : Text) : Except Misuse Word :=
  match t with
  | [] => .ok (plain t)
  | c :: rest =>
    if c ≠ '-' then .ok (plain t)
    else
      match Flag.ofSpelling? t with
      | some f => .ok (flag f (isShort t) none)
      | none =>
        if rest.isEmpty then .ok (plain t)
        else
          match attachedFlag? t with
          | some w => .ok w
          | none => if rest.head? = some '-' then ofAbbreviation t else .ok (ofCluster t)

def listOf : List Text → Except Misuse (List Word)
  | [] => .ok []
  | t :: ts =>
    if t = ['-', '-'] then .ok (separator :: ts.map plain)
    else do return (← ofText t) :: (← listOf ts)

end Word

end MathTokens
