import MathTokens.Files.Path
import MathTokens.Text.Quoted
import MathTokens.Text.Utf8

/-!
# Files

A tree of folders and files with a working directory. Going along a path, every component but the
last has to be a folder that exists; `..` goes up, and stays where it is at the top. Names and paths
have a greatest length in bytes. Files can be read and written.
-/

namespace MathTokens

inductive Node where
  | file (content : Utf8.Bytes)
  | folder (entries : List (Text × Node))

namespace Node

def find? : Node → List Text → Option Node
  | n, [] => some n
  | file _, _ :: _ => none
  | folder entries, name :: names => (entries.lookup name).bind fun n => n.find? names

def setEntry (name : Text) (n : Node) : List (Text × Node) → List (Text × Node)
  | [] => [(name, n)]
  | e :: entries => if e.1 = name then (name, n) :: entries else e :: setEntry name n entries

/-- The tree with a node put where names lead, in folders that are made where they are missing. -/
def put (new : Node) : List Text → Node → Node
  | [], _ => new
  | name :: names, folder entries =>
    let old := (entries.lookup name).getD (folder [])
    folder (setEntry name (put new names old) entries)
  | _ :: _, file content => file content

mutual

def files : Node → List (List Text × Utf8.Bytes)
  | file content => [([], content)]
  | folder entries => filesOf entries

def filesOf : List (Text × Node) → List (List Text × Utf8.Bytes)
  | [] => []
  | (name, n) :: entries =>
    (files n).map (fun (names, content) => (name :: names, content)) ++ filesOf entries

end

end Node

structure FileTree where
  top : Node
  here : List Text

inductive FileFault where
  | notFound
  | notFolder
  | isFolder
  | nameTooLong
  | nulInPath
deriving DecidableEq

abbrev Disk := Path → Except FileFault Utf8.Bytes

namespace FileTree

/-- The most bytes that the system allows a name in a folder. -/
def nameLimit : Nat := 255

/-- The most bytes that the system allows a path, the one that ends it left out. -/
def pathLimit : Nat := 4095

/-- The names that lead from the top to where components lead from a folder. The last component need
not exist. -/
def walk (top : Node) (folder : List Text) : List Text → Except FileFault (List Text)
  | [] => .ok folder
  | c :: cs =>
    if c = Path.dotDot then walk top folder.dropLast cs
    else if nameLimit < (Utf8.encode c).length then .error .nameTooLong
    else if cs.isEmpty then .ok (folder ++ [c])
    else
      match top.find? (folder ++ [c]) with
      | none => .error .notFound
      | some (.file _) => .error .notFolder
      | some (.folder _) => walk top (folder ++ [c]) cs

def locate (tree : FileTree) (p : Path) : Except FileFault (List Text) :=
  if p.components.any (·.contains '\x00') then .error .nulInPath
  else if pathLimit < (Utf8.encode p.toText).length then .error .nameTooLong
  else walk tree.top (if p.root = .here then tree.here else []) p.components

def read (tree : FileTree) : Disk := fun p => do
  match tree.top.find? (← tree.locate p) with
  | none => throw .notFound
  | some (.folder _) => throw .isFolder
  | some (.file content) => return content

/-- The tree with a file written, in a folder that has to exist. -/
def write (tree : FileTree) (p : Path) (content : Utf8.Bytes) : Except FileFault FileTree := do
  let names ← tree.locate p
  match tree.top.find? names with
  | some (.folder _) => throw .isFolder
  | _ => return { tree with top := Node.put (.file content) names tree.top }

def files (tree : FileTree) : List (List Text × Utf8.Bytes) :=
  ((tree.top.find? tree.here).map Node.files).getD []

def changesSince (tree earlier : FileTree) : List (List Text × Utf8.Bytes) :=
  let old := earlier.files
  tree.files.filter fun f => !old.contains f

end FileTree

namespace FileFault

def message (p : Path) : FileFault → Text
  | notFound => "[Errno 2] No such file or directory: ".toList ++ p.toText.quoted
  | notFolder => "[Errno 20] Not a directory: ".toList ++ p.toText.quoted
  | isFolder => "[Errno 21] Is a directory: ".toList ++ p.toText.quoted
  | nameTooLong => "[Errno 36] File name too long: ".toList ++ p.toText.quoted
  | nulInPath => "embedded null byte".toList

end FileFault

end MathTokens
