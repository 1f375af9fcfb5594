import MathTokens.Toml.Characters

/-!
# Dates and times of TOML

The form of a date or time is settled before its calendar: `2023-02-30` is the form of a date, and
refused as one because February has no such day.
-/

namespace MathTokens

namespace Date

def isLeapYear (year : Nat) : Bool :=
  year % 4 = 0 && (year % 100 ≠ 0 || year % 400 = 0)

def daysIn (year month : Nat) : Nat :=
  if month = 2 then if isLeapYear year then 29 else 28
  else if month ∈ [4, 6, 9, 11] then 30
  else 31

/-- Whether the calendar has the date. It starts with the year 1. -/
def isValid (d : Date) : Bool :=
  1 ≤ d.year && d.day ≤ daysIn d.year d.month

end Date

namespace Toml

def number? (width low high : Nat) (t : Text) : Option (Nat × Text) :=
  let digits := t.take width
  let n := ofDigits 10 digits
  if digits.length = width ∧ digits.all Char.isDigit ∧ low ≤ n ∧ n ≤ high then
    some (n, t.drop width)
  else none

def character? (c : Char) : Text → Option Text
  | [] => none
  | d :: t => if d = c then some t else none

def date? (t : Text) : Option (Date × Text) := do
  let (year, t) ← number? 4 0 9999 t
  let (month, t) ← number? 2 1 12 (← character? '-' t)
  let (day, t) ← number? 2 1 31 (← character? '-' t)
  return (⟨year, month, day⟩, t)

/-- The microseconds after a second, if there are any. Further digits are dropped. -/
def microseconds : Text → Nat × Text
  | '.' :: t =>
    let digits := t.takeWhile Char.isDigit
    let kept := digits.take 6
    if digits.isEmpty then (0, '.' :: t)
    else (ofDigits 10 kept * Nat.pow 10 (6 - kept.length), t.dropWhile Char.isDigit)
  | t => (0, t)

def timeOfDay? (t : Text) : Option (TimeOfDay × Text) := do
  let (hour, t) ← number? 2 0 23 t
  let (minute, t) ← number? 2 0 59 (← character? ':' t)
  let (second, t) ← number? 2 0 59 (← character? ':' t)
  let (microsecond, t) := microseconds t
  return (⟨hour, minute, second, microsecond⟩, t)

def offsetMinutes? (t : Text) : Option (Int × Text) := do
  let (hours, t) ← number? 2 0 23 t
  let (minutes, t) ← number? 2 0 59 (← character? ':' t)
  return ((60 * hours + minutes : Nat), t)

def offset (t : Text) : Option Int × Text :=
  match t with
  | [] => (none, t)
  | c :: rest =>
    if c = 'Z' ∨ c = 'z' then (some 0, rest)
    else if c = '+' ∨ c = '-' then
      match offsetMinutes? rest with
      | some (n, rest) => (some (if c = '-' then -n else n), rest)
      | none => (none, t)
    else (none, t)

def timeAfterDate? : Text → Option (TimeOfDay × Text)
  | [] => none
  | c :: t => if c = 'T' ∨ c = 't' ∨ c = ' ' then timeOfDay? t else none

def dateForm? (t : Text) : Option (Date × Moment × Text) := do
  let (d, t) ← date? t
  match timeAfterDate? t with
  | none => return (d, .date d, t)
  | some (time, t) =>
    let (offset?, t) := offset t
    return (d, .dateTime d time offset?, t)

def moment? (t : Text) : Option (Except Failure Toml × Text) :=
  match dateForm? t with
  | some (d, m, t) => some (if d.isValid then .ok (.moment m) else .error .malformed, t)
  | none => (timeOfDay? t).map fun (time, t) => (.ok (.moment (.time time)), t)

end Toml

end MathTokens
