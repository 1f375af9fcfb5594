import MathTokens.Toml.Moments
import MathTokens.Toml.Numbers
import MathTokens.Toml.Strings
import MathTokens.Toml.Tables

/-!
# Values of TOML

Keys, scalars, arrays and inline tables. Arrays may run over lines and end with a comma, inline
tables may not. Inside an inline table an entry that holds an array or a table is closed to later
entries. Both nest to a limited depth.
-/

namespace MathTokens.Toml

/-! ## Keys -/

def readKeyPart : Text → Except Failure (Text × Text)
  | [] => .error .malformed
  | c :: t =>
    if isBareKeyCharacter c then
      .ok (c :: t.takeWhile isBareKeyCharacter, t.dropWhile isBareKeyCharacter)
    else if c = '\x27' then readLiteral t
    else if c = '"' then readBasic false t
    else .error .malformed

def readKeyOf : Nat → Text → Except Failure (Key × Text)
  | 0, _ => .error .malformed
  | n + 1, t => do
    let (part, t) ← readKeyPart t
    match skipSpace t with
    | '.' :: t => do
      let (key, t) ← readKeyOf n (skipSpace t)
      return (part :: key, t)
    | t => return ([part], t)

def readKey (t : Text) : Except Failure (Key × Text) :=
  readKeyOf t.length t

def readAssignedKey (t : Text) : Except Failure (Key × Text) := do
  let (key, t) ← readKey t
  match t with
  | '=' :: t => return (key, skipSpace t)
  | _ => throw .malformed

/-! ## Scalars -/

def string? : Text → Option (Except Failure (Text × Text))
  | '"' :: '"' :: '"' :: t => some (readMultiline '"' t)
  | '"' :: t => some (readBasic false t)
  | '\x27' :: '\x27' :: '\x27' :: t => some (readMultiline '\x27' t)
  | '\x27' :: t => some (readLiteral t)
  | _ => none

def bool? (t : Text) : Option (Bool × Text) :=
  match afterWord? "true" t with
  | some rest => some (true, rest)
  | none => (afterWord? "false" t).map fun rest => (false, rest)

def readPlain (t : Text) : Except Failure (Toml × Text) :=
  match bool? t with
  | some (b, t) => .ok (.bool b, t)
  | none =>
    match moment? t with
    | some (m, t) => m.map (·, t)
    | none =>
      match markedInteger? t with
      | some r => .ok r
      | none =>
        match decimal? t with
        | some (x, t) => x.map (·, t)
        | none =>
          match numberWord? t with
          | some r => .ok r
          | none => .error .malformed

def readScalar (t : Text) : Except Failure (Toml × Text) :=
  match string? t with
  | some r => r.map fun (s, t) => (.string s, t)
  | none => readPlain t

/-! ## Arrays and inline tables -/

/-- Whether a key leads to or into one of the closed entries. -/
def isClosed (closed : List Key) (key : Key) : Bool :=
  closed.any (·.isPrefixOf key)

def addInline (closed : List Key) (key : Key) (value : Toml) (entries : Table) :
    Except Failure Table :=
  match key.getLast? with
  | none => .error .malformed
  | some name =>
    if isClosed closed key then .error .malformed
    else
      match Table.change? false (Table.add? name value) key.dropLast entries with
      | some entries => .ok entries
      | none => .error .malformed

/-- How many levels values may nest. The program sets no such limit: of the 1000 frames that the runtime
has for calls about ten are taken before the first value, so the number is an estimate. An array takes
two frames, and an inline table three. -/
def levelLimit : Nat := 988

def arrayLevels : Nat := 2

def tableLevels : Nat := 3

def takeLevels (taken levels : Nat) : Except Failure Nat :=
  if levels < taken then .error .deepNesting else .ok (levels - taken)

mutual

/-- A value that may nest `levels` deep, with at most `n` steps into and along what it holds. -/
def readValueOf (n levels : Nat) (t : Text) : Except Failure (Toml × Text) :=
  match n, t with
  | 0, _ => .error .malformed
  | n + 1, '[' :: t => do
    let levels ← takeLevels arrayLevels levels
    match ← skipFiller t with
    | ']' :: t => return (.array [], t)
    | t => do
      let (items, t) ← readItemsOf n levels t
      return (.array items, t)
  | n + 1, '{' :: t => do
    let levels ← takeLevels tableLevels levels
    match skipSpace t with
    | '}' :: t => return (.table [], t)
    | t => do
      let (entries, t) ← readEntriesOf n levels [] [] t
      return (.table entries, t)
  | _ + 1, t => readScalar t

def readItemsOf (n levels : Nat) (t : Text) : Except Failure (List Toml × Text) :=
  match n with
  | 0 => .error .malformed
  | n + 1 => do
    let (item, t) ← readValueOf n levels t
    match ← skipFiller t with
    | ']' :: t => return ([item], t)
    | ',' :: t => do
      match ← skipFiller t with
      | ']' :: t => return ([item], t)
      | t => do
        let (items, t) ← readItemsOf n levels t
        return (item :: items, t)
    | _ => throw .malformed

def readEntriesOf (n levels : Nat) (closed : List Key) (entries : Table) (t : Text) :
    Except Failure (Table × Text) :=
  match n with
  | 0 => .error .malformed
  | n + 1 => do
    let (key, t) ← readAssignedKey t
    let (value, t) ← readValueOf n levels t
    let entries ← addInline closed key value entries
    match skipSpace t with
    | '}' :: t => return (entries, t)
    | ',' :: t =>
      let closed := if value.isContainer then key :: closed else closed
      readEntriesOf n levels closed entries (skipSpace t)
    | _ => throw .malformed

end

/-- A value. Every second step goes past a character, so twice the length is enough of them. -/
def readValue (t : Text) : Except Failure (Toml × Text) :=
  readValueOf (2 * t.length + 1) levelLimit t

end MathTokens.Toml
