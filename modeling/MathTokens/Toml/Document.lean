import MathTokens.Toml.Values

/-!
# TOML documents

A document is a row of statements: entries, table headers and headers of arrays of tables. What a
table may still be given depends on how it came about. A header opens a table once. Tables that a
dotted key passes through are opened by it, and later headers may not open them again. Arrays and
inline tables that stand as values are closed.
-/

namespace MathTokens.Toml

structure Document where
  table : Table := []
  header : Key := []
  /-- The keys that no header may open. -/
  opened : List Key := []
  /-- The keys that dotted keys have passed through since the last header. -/
  passed : List Key := []
  /-- The keys of arrays and inline tables. -/
  closed : List Key := []

namespace Document

def with? (d : Document) (table? : Option Table) : Except Failure Document :=
  match table? with
  | some table => .ok { d with table }
  | none => .error .malformed

def readEnd (w : String) (d : Document) (t : Text) : Except Failure (Document × Text) :=
  match afterWord? w t with
  | some t => .ok (d, t)
  | none => .error .malformed

/-- Dotted keys that have been passed through are opened for good when a header comes. -/
def settle (d : Document) : Document :=
  { d with opened := d.passed ++ d.opened, passed := [] }

def readTableHeader (d : Document) (t : Text) : Except Failure (Document × Text) := do
  let (key, t) ← readKey (skipSpace t)
  if d.opened.contains key || isClosed d.closed key then throw .malformed
  let d ← d.with? (Table.change? true some key d.table)
  readEnd "]" { d with opened := key :: d.opened, header := key } t

/-- A header of an array of tables, after its opening brackets. What was known about the keys inside
belongs to the table before. -/
def readArrayHeader (d : Document) (t : Text) : Except Failure (Document × Text) := do
  let (key, t) ← readKey (skipSpace t)
  let name ← match key.getLast? with
    | some name => pure name
    | none => throw .malformed
  if isClosed d.closed key then throw .malformed
  let d ← d.with? (Table.change? true (Table.extendArray? name) key.dropLast d.table)
  let opened := key :: d.opened.filter (!key.isPrefixOf ·)
  let closed := d.closed.filter (!key.isPrefixOf ·)
  readEnd "]]" { d with opened, closed, header := key } t

def keysPassed (header key : Key) : List Key :=
  (List.range (key.length - 1)).map fun i => header ++ key.take (i + 1)

def readEntry (d : Document) (t : Text) : Except Failure (Document × Text) := do
  let (key, t) ← readAssignedKey t
  let (value, t) ← readValue t
  let name ← match key.getLast? with
    | some name => pure name
    | none => throw .malformed
  let passed := keysPassed d.header key
  if passed.any (d.opened.contains ·) then throw .malformed
  let path := d.header ++ key.dropLast
  if isClosed d.closed path then throw .malformed
  let d ← d.with? (Table.change? true (Table.add? name value) path d.table)
  let closed := if value.isContainer then (d.header ++ key) :: d.closed else d.closed
  return ({ d with closed, passed := passed ++ d.passed }, t)

/-- The statement at the front of a text that is not empty and starts with no space. A line may have
none. -/
def readStatement (d : Document) (t : Text) : Except Failure (Document × Text) :=
  match t with
  | '[' :: '[' :: t => d.settle.readArrayHeader t
  | '[' :: t => d.settle.readTableHeader t
  | '#' :: _ => .ok (d, t)
  | '\n' :: _ => .ok (d, t)
  | _ => d.readEntry t

def readLinesOf (d : Document) : Nat → Text → Except Failure Document
  | 0, _ => .ok d
  | n + 1, t =>
    match skipSpace t with
    | [] => .ok d
    | t => do
      let (d, t) ← d.readStatement t
      match ← skipComment (skipSpace t) with
      | [] => return d
      | '\n' :: t => d.readLinesOf n t
      | _ => throw .malformed

end Document

def read (t : Text) : Except Failure Table :=
  (Document.readLinesOf {} (t.length + 1) t).map (·.table)

end MathTokens.Toml
