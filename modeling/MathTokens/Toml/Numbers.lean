import MathTokens.Binary64.Rounding
import MathTokens.Toml.Characters

/-!
# Numbers of TOML

Digits may be parted by single underscores. Integers are decimal, or hexadecimal, octal or binary
without a sign; a decimal number with a fraction or an exponent is a float.
-/

namespace MathTokens.Toml

def moreDigits (p : Char → Bool) : Text → Text × Text
  | [] => ([], [])
  | ['_'] => ([], ['_'])
  | '_' :: c :: t =>
    if p c then
      let (digits, rest) := moreDigits p t
      (c :: digits, rest)
    else ([], '_' :: c :: t)
  | c :: t =>
    if p c then
      let (digits, rest) := moreDigits p t
      (c :: digits, rest)
    else ([], c :: t)

def digits? (p : Char → Bool) : Text → Option (Text × Text)
  | [] => none
  | c :: t =>
    if p c then
      let (digits, rest) := moreDigits p t
      some (c :: digits, rest)
    else none

def baseOf? (mark : Char) : Option (Nat × (Char → Bool)) :=
  if mark = 'x' then some (16, isHexDigit)
  else if mark = 'o' then some (8, fun c => '0' ≤ c && c ≤ '7')
  else if mark = 'b' then some (2, fun c => c = '0' || c = '1')
  else none

def markedInteger? : Text → Option (Toml × Text)
  | '0' :: mark :: t => do
    let (base, p) ← baseOf? mark
    let (digits, rest) ← digits? p t
    return (.integer (ofDigits base digits), rest)
  | _ => none

def sign : Text → Bool × Text
  | '-' :: t => (true, t)
  | '+' :: t => (false, t)
  | t => (false, t)

def wholeDigits? : Text → Option (Text × Text)
  | '0' :: t => some (['0'], t)
  | t => digits? Char.isDigit t

def fractionDigits : Text → Text × Text
  | '.' :: t => (digits? Char.isDigit t).getD ([], '.' :: t)
  | t => ([], t)

def exponent? : Text → Option (Int × Text)
  | [] => none
  | c :: t =>
    if c = 'e' ∨ c = 'E' then
      let (negative, t) := sign t
      (digits? Char.isDigit t).map fun (digits, rest) =>
        let n : Int := ofDigits 10 digits
        (if negative then -n else n, rest)
    else none

def decimalInteger (negative : Bool) (digits : Text) : Except Failure Toml :=
  if digitLimit < digits.length then .error (.longInteger digits.length)
  else
    let n : Int := ofDigits 10 digits
    .ok (.integer (if negative then -n else n))

def decimal? (t : Text) : Option (Except Failure Toml × Text) := do
  let (negative, t) := sign t
  let (whole, t) ← wholeDigits? t
  let (fraction, t) := fractionDigits t
  match exponent? t with
  | none =>
    if fraction.isEmpty then return (decimalInteger negative whole, t)
    else return (.ok (.float (.ofScientific negative (ofDigits 10 (whole ++ fraction))
      (-fraction.length))), t)
  | some (e, t) =>
    return (.ok (.float (.ofScientific negative (ofDigits 10 (whole ++ fraction))
      (e - fraction.length))), t)

def afterWord? (w : String) (t : Text) : Option Text :=
  if w.toList.isPrefixOf t then some (t.drop w.length) else none

def numberWord? (t : Text) : Option (Toml × Text) :=
  let (negative, t) := sign t
  match afterWord? "inf" t with
  | some rest => some (.float (.infinity negative), rest)
  | none => (afterWord? "nan" t).map fun rest => (.nan, rest)

end MathTokens.Toml
