import MathTokens.About
import MathTokens.Stream.Basic
import MathTokens.Text.Percent

/-!
# Editing

The documents that an editor has open, and what is published about them. Whenever a document is
opened or changed its diagnostics are published anew: none if its text can be cut into tokens, and
else the one place where it cannot. Lines and characters count from zero. A document may be named by
several URIs, which differ in the characters they escape; what is published goes to the URI that was
used.
-/

namespace MathTokens

/-- A remark on the characters from `start` up to `stop` of a line. -/
structure Diagnostic where
  line : Int
  start : Int
  stop : Int
  message : Text
  severity : Nat
  source : Text
deriving DecidableEq

structure Publication where
  uri : Text
  diagnostics : List Diagnostic
deriving DecidableEq

/-- The texts of the documents that are open, by their names without escapes. -/
abbrev Workspace := List (Text × Text)

/-- What an editor tells: a document was opened, or its whole text replaced a number of times. -/
inductive Notification where
  | opened (uri : Text) (text : Text)
  | changed (uri : Text) (texts : List Text)

def Notification.names : List Text :=
  ["textDocument/didChange".toList, "textDocument/didOpen".toList]

namespace Diagnostic

def error : Nat := 1

def ofMalformed (e : Malformed) : Diagnostic where
  line := e.place.line - 1
  start := e.place.column - 1
  stop := e.place.column
  message := e.cause.message
  severity := error
  source := About.program

def listOf (text : Text) : List Diagnostic :=
  match Token.listOf text with
  | .ok _ => []
  | .error e => [ofMalformed e]

end Diagnostic

namespace Workspace

def documentOf (uri : Text) : Text :=
  Percent.decode uri

def textOf (w : Workspace) (uri : Text) : Text :=
  (w.lookup (documentOf uri)).getD []

def setText (w : Workspace) (uri text : Text) : Workspace :=
  (documentOf uri, text) :: w.filter (·.1 ≠ documentOf uri)

def publication (w : Workspace) (uri : Text) : Publication :=
  ⟨uri, Diagnostic.listOf (w.textOf uri)⟩

def notify (w : Workspace) : Notification → Publication × Workspace
  | .opened uri text =>
    let w := w.setText uri text
    (w.publication uri, w)
  | .changed uri texts =>
    let w := texts.foldl (fun w text => w.setText uri text) w
    (w.publication uri, w)

end Workspace

end MathTokens
