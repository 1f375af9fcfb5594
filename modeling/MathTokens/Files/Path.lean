import MathTokens.Text.Basic

/-!
# Paths

A path is kept in its normal form: repeated slashes, slashes at the end and components `.` are gone,
components `..` stay. Two slashes at the start are not one, but three are. The path without
components is written as a dot.
-/

namespace MathTokens

inductive Root where
  | here
  | slash
  | twoSlashes
deriving DecidableEq

structure Path where
  root : Root
  components : List Text
deriving DecidableEq

namespace Path

def dot : Text := ['.']

def dotDot : Text := ['.', '.']

def pieces : Text → List Text
  | [] => [[]]
  | c :: t =>
    if c = '/' then [] :: pieces t
    else
      match pieces t with
      | [] => [[c]]
      | p :: ps => (c :: p) :: ps

def rootOf : Text → Root
  | '/' :: '/' :: '/' :: _ => .slash
  | '/' :: '/' :: _ => .twoSlashes
  | '/' :: _ => .slash
  | _ => .here

def ofText (t : Text) : Path :=
  ⟨rootOf t, (pieces t).filter fun p => !p.isEmpty && p ≠ dot⟩

def rootText : Root → Text
  | .here => []
  | .slash => ['/']
  | .twoSlashes => ['/', '/']

def toText (p : Path) : Text :=
  match p.root, p.components with
  | .here, [] => dot
  | root, components => rootText root ++ ['/'].intercalate components

def parent (p : Path) : Path :=
  { p with components := p.components.dropLast }

def join (p : Path) (name : Text) : Path :=
  { p with components := p.components ++ [name] }

end Path

end MathTokens
