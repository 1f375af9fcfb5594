import MathTokens.Files.Tree
import MathTokens.Text.LineEnd
import MathTokens.Toml.Document

/-!
# Configuration files

A configuration is a TOML table. It is read from a file that is named and has to exist, or else from
a file of a fixed name in a folder, and is empty if that file does not exist.
-/

namespace MathTokens.Config

def fileName : Text := "mathlang.toml".toList

inductive Fault where
  | missing (file : Path)
  /-- The name of the file is too long to tell whether there is such a file. -/
  | nameTooLong (file : Path)
  | undecodable (f : Utf8.Fault)
  | unreadable (f : Toml.Failure)

def source (named? : Option Path) (folder : Path) : Path :=
  named?.getD (folder.join fileName)

def ofBytes (content : Utf8.Bytes) : Except Fault Toml.Table :=
  match Utf8.decode content with
  | .error f => .error (.undecodable f)
  | .ok t => (Toml.read t.joinLineEnds).mapError .unreadable

def load (disk : Disk) (named? : Option Path) (folder : Path) : Except Fault Toml.Table :=
  let file := source named? folder
  match disk file, named? with
  | .ok content, _ => ofBytes content
  | .error .nameTooLong, _ => .error (.nameTooLong file)
  | .error _, some file => .error (.missing file)
  | .error _, none => .ok []

def missingMessage (file : Path) : Text :=
  "config file not found: ".toList ++ file.toText

end MathTokens.Config
