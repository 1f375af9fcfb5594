import MathTokens.Binary64.Printer
import MathTokens.Text.Quoted
import MathTokens.Toml.Basic

/-!
# TOML values in messages

A message shows a value by itself in its plain form: a string as it is, a date or time as the
calendar writes it. Inside an array or a table strings are quoted, and a date or time is spelled out
as the fields it is built from. Integers of very many digits and values very deep inside others are
not shown.
-/

namespace MathTokens

/-! ## Dates and times as the calendar writes them -/

def Date.toText (d : Date) : Text :=
  Text.digits 10 4 d.year ++ '-' :: Text.digits 10 2 d.month ++ '-' :: Text.digits 10 2 d.day

def TimeOfDay.toText (t : TimeOfDay) : Text :=
  Text.digits 10 2 t.hour ++ ':' :: Text.digits 10 2 t.minute ++ ':' :: Text.digits 10 2 t.second ++
    if t.microsecond = 0 then [] else '.' :: Text.digits 10 6 t.microsecond

def offsetText (minutes : Int) : Text :=
  let n := minutes.natAbs
  (if minutes < 0 then '-' else '+') :: Text.digits 10 2 (n / 60) ++ ':' ::
    Text.digits 10 2 (n % 60)

namespace Moment

def toText : Moment → Text
  | date d => d.toText
  | time t => t.toText
  | dateTime d t none => d.toText ++ ' ' :: t.toText
  | dateTime d t (some minutes) => d.toText ++ ' ' :: t.toText ++ offsetText minutes

/-! ## Dates and times as fields -/

def call (name : String) (arguments : List Text) : Text :=
  name.toList ++ '(' :: [',', ' '].intercalate arguments ++ [')']

def dateFields (d : Date) : List Text :=
  [Text.ofNat d.year, Text.ofNat d.month, Text.ofNat d.day]

/-- The fields of a time. Trailing zeros are left out from the seconds on. -/
def timeFields (t : TimeOfDay) : List Text :=
  [Text.ofNat t.hour, Text.ofNat t.minute] ++
    if t.microsecond ≠ 0 then [Text.ofNat t.second, Text.ofNat t.microsecond]
    else if t.second ≠ 0 then [Text.ofNat t.second]
    else []

/-- An offset, whose days are counted down to and its seconds up from there. -/
def offsetField (minutes : Int) : Text :=
  let seconds := minutes * 60
  let zone :=
    if seconds = 0 then "datetime.timezone.utc".toList
    else
      let span :=
        if seconds < 0 then
          ["days=-1".toList, "seconds=".toList ++ Text.ofInt (seconds + 86400)]
        else ["seconds=".toList ++ Text.ofInt seconds]
      call "datetime.timezone" [call "datetime.timedelta" span]
  "tzinfo=".toList ++ zone

def fieldsText : Moment → Text
  | date d => call "datetime.date" (dateFields d)
  | time t => call "datetime.time" (timeFields t)
  | dateTime d t offset? =>
    call "datetime.datetime" (dateFields d ++ timeFields t ++ (offset?.map offsetField).toList)

end Moment

/-! ## Values -/

namespace Toml

/-- How many levels of a value are shown. The program sets no such limit: the number is an estimate of
what is left of the 1000 frames that the runtime has for calls. -/
def shownLevels : Nat := 993

def integerText (n : Int) : Except Unshowable Text :=
  if n.natAbs < Nat.pow 10 digitLimit then .ok (Text.ofInt n) else .error .longInteger

mutual

def innerText (levels : Nat) : Toml → Except Unshowable Text
  | bool b => .ok (if b then "True".toList else "False".toList)
  | integer n => integerText n
  | float x => .ok x.toText
  | nan => .ok "nan".toList
  | string t => .ok t.quoted
  | moment m => .ok m.fieldsText
  | array items => do return '[' :: (← itemsText levels true items) ++ [']']
  | table entries => do return '\x7b' :: (← entriesText levels true entries) ++ ['\x7d']

/-- The items of an array, the first of them without a comma before it. -/
def itemsText (levels : Nat) (atStart : Bool) : List Toml → Except Unshowable Text
  | [] => .ok []
  | item :: items => do
    if levels = 0 then throw .deepNesting
    let shown ← innerText (levels - 1) item
    return (if atStart then [] else [',', ' ']) ++ shown ++ (← itemsText levels false items)

def entriesText (levels : Nat) (atStart : Bool) : List (Text × Toml) → Except Unshowable Text
  | [] => .ok []
  | (name, value) :: entries => do
    if levels = 0 then throw .deepNesting
    let shown ← innerText (levels - 1) value
    return (if atStart then [] else [',', ' ']) ++ Text.quoted name ++ ':' :: ' ' :: shown ++
      (← entriesText levels false entries)

end

def shown : Toml → Except Unshowable Text
  | string t => .ok t
  | moment m => .ok m.toText
  | v => innerText shownLevels v

end Toml

end MathTokens
