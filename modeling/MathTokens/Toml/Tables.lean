import MathTokens.Toml.Basic

/-!
# Changing tables

An entry is added behind those a table has. A key leads through tables, which are made where they
are missing, and through arrays to the last table in them.
-/

namespace MathTokens.Toml.Table

def replace (t : Table) (name : Text) (value : Toml) : Table :=
  t.map fun e => if e.1 = name then (name, value) else e

def add? (name : Text) (value : Toml) (t : Table) : Option Table :=
  match t.lookup name with
  | some _ => none
  | none => some (t ++ [(name, value)])

def change? (throughArrays : Bool) (f : Table → Option Table) : Key → Table → Option Table
  | [], t => f t
  | name :: key, t =>
    match t.lookup name with
    | none => (change? throughArrays f key []).map fun s => t ++ [(name, .table s)]
    | some (.table s) => (change? throughArrays f key s).map fun s => replace t name (.table s)
    | some (.array items) =>
      if throughArrays then
        match items.getLast? with
        | some (.table s) =>
          (change? throughArrays f key s).map fun s =>
            replace t name (.array (items.dropLast ++ [.table s]))
        | _ => none
      else none
    | some _ => none

/-- Adds an empty table to the array of that name, which is made if it is missing. -/
def extendArray? (name : Text) (t : Table) : Option Table :=
  match t.lookup name with
  | none => some (t ++ [(name, .array [.table []])])
  | some (.array items) => some (replace t name (.array (items ++ [.table []])))
  | some _ => none

end MathTokens.Toml.Table
