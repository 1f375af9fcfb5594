import MathTokens.Toml.Characters

/-!
# Strings of TOML

A literal string holds what stands between apostrophes; a basic string, between double quotes, has
escapes. With three quotes a string runs over lines: a newline right after the opening ones is
dropped, and up to two quotes before the closing ones belong to the string.
-/

namespace MathTokens.Toml

/-! ## Escapes -/

def readHex (width : Nat) (t : Text) : Except Failure (Text × Text) :=
  let digits := t.take width
  let n := ofDigits 16 digits
  if digits.length = width ∧ digits.all isHexDigit ∧ n.isValidChar then
    .ok ([Char.ofNat n], t.drop width)
  else .error .malformed

def namedEscapes : List (Char × Char) :=
  [('b', '\x08'), ('t', '\t'), ('n', '\n'), ('f', '\x0c'), ('r', '\r'), ('"', '"'), ('\\', '\\')]

/-- A backslash at the end of a line stands for nothing, and takes with it all blanks up to the next
character. -/
def readLineEscape (t : Text) : Except Failure (Text × Text) :=
  match skipSpace t with
  | [] => .ok ([], [])
  | '\n' :: t => .ok ([], t.dropWhile isSpaceOrNewline)
  | _ => .error .malformed

def readEscape (multiline : Bool) : Text → Except Failure (Text × Text)
  | [] => .error .malformed
  | c :: t =>
    if multiline && isSpaceOrNewline c then readLineEscape (c :: t)
    else if c = 'u' then readHex 4 t
    else if c = 'U' then readHex 8 t
    else
      match namedEscapes.lookup c with
      | some d => .ok ([d], t)
      | none => .error .malformed

/-! ## Basic strings -/

def isIllegal (multiline : Bool) (c : Char) : Bool :=
  if multiline then isIllegalInLines c else isIllegalInLine c

def before (s : Text) (r : Except Failure (Text × Text)) : Except Failure (Text × Text) :=
  r.map fun (s', t) => (s ++ s', t)

def readBasicOf (multiline : Bool) : Nat → Text → Except Failure (Text × Text)
  | 0, _ => .error .malformed
  | _ + 1, [] => .error .malformed
  | n + 1, c :: t =>
    if c = '"' then
      if !multiline then .ok ([], t)
      else
        match t with
        | '"' :: '"' :: t => .ok ([], t)
        | _ => before ['"'] (readBasicOf multiline n t)
    else if c = '\\' then do
      let (s, t) ← readEscape multiline t
      before s (readBasicOf multiline n t)
    else if isIllegal multiline c then .error .malformed
    else before [c] (readBasicOf multiline n t)

def readBasic (multiline : Bool) (t : Text) : Except Failure (Text × Text) :=
  readBasicOf multiline (t.length + 1) t

/-! ## Literal strings -/

def readLiteral (t : Text) : Except Failure (Text × Text) :=
  let s := t.takeWhile (· ≠ '\x27')
  match t.dropWhile (· ≠ '\x27') with
  | [] => .error .malformed
  | _ :: t => if s.any isIllegalInLine then .error .malformed else .ok (s, t)

def splitAtClosing? : Text → Option (Text × Text)
  | [] => none
  | '\x27' :: '\x27' :: '\x27' :: t => some ([], t)
  | c :: t => (splitAtClosing? t).map fun (s, t) => (c :: s, t)

def readLiteralLines (t : Text) : Except Failure (Text × Text) :=
  match splitAtClosing? t with
  | none => .error .malformed
  | some (s, t) => if s.any isIllegalInLines then .error .malformed else .ok (s, t)

/-! ## Strings of several lines -/

def dropNewline : Text → Text
  | '\n' :: t => t
  | t => t

/-- Adds up to two more quotes to a string that has just been closed. -/
def withExtraQuotes (q : Char) (s t : Text) : Text × Text :=
  let extra := (t.take 2).takeWhile (· = q)
  (s ++ extra, t.drop extra.length)

def readMultiline (q : Char) (t : Text) : Except Failure (Text × Text) := do
  let t := dropNewline t
  let (s, t) ← if q = '"' then readBasic true t else readLiteralLines t
  return withExtraQuotes q s t

end MathTokens.Toml
