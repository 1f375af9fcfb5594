import MathTokens.Settings
import MathTokens.Stream.Basic
import MathTokens.Text.LineEnd

/-!
# Runs

A run reads its input, lists the tokens, and writes the listing to a file or prints it. What it
would do is planned from the command line and the files it reads; carrying the plan out can only
fail where the output file cannot be opened.

A run that ends by itself has a code: 0 for a listing, 1 for malformed input, 2 for a configuration
or an input that cannot be used. It is interrupted by the command line where that asks for help or
is misused, and it breaks off at faults that have no code.
-/

namespace MathTokens

inductive Breakage where
  | undecodableConfig (f : Utf8.Fault)
  | unreadableConfig (f : Toml.Failure)
  | unshowableFormat (f : Toml.Unshowable)
  | file (f : FileFault) (p : Path)

inductive Ending where
  | code (n : Nat)
  | interrupted (i : Interruption)
  | broken (b : Breakage)

structure Plan where
  ending : Ending
  out : Text := []
  err : Text := []
  write? : Option (Path × Utf8.Bytes) := none

structure Run where
  ending : Ending
  out : Text
  err : Text
  tree : FileTree

namespace Plan

def refuse (message : Text) : Plan where
  ending := .code 2
  err := "error: ".toList ++ message ++ ['\n']

def ofInterruption (i : Interruption) : Plan :=
  match i with
  | .help => { ending := .interrupted i, out := Usage.helpText }
  | .misuse m => { ending := .interrupted i, err := Usage.refusalText m }

def ofFault : Settings.Fault → Plan
  | .unknownFormat shown => refuse (Settings.unknownFormatMessage shown)
  | .unshowableFormat f => { ending := .broken (.unshowableFormat f) }
  | .config (.missing file) => refuse (Config.missingMessage file)
  | .config (.nameTooLong file) => { ending := .broken (.file .nameTooLong file) }
  | .config (.undecodable f) => { ending := .broken (.undecodableConfig f) }
  | .config (.unreadable .malformed) => refuse (Toml.Failure.message .malformed)
  | .config (.unreadable f) => { ending := .broken (.unreadableConfig f) }

def ofTokens (s : Settings) (ts : List Token) : Plan :=
  let listing := Token.listing (s.format?.getD .text) s.places ts
  let plan : Plan := { ending := .code 0, err := if s.debug then Token.lines true ts else [] }
  match s.output? with
  | none => { plan with out := listing }
  | some p => { plan with write? := some (p, Utf8.encode listing) }

/-- The source text that the bytes of a file spell. Its line ends are newlines. -/
def sourceOf (content : Utf8.Bytes) : Except Utf8.Fault Text :=
  (Utf8.decode content).map Text.unifyLineEnds

def ofSource (s : Settings) (source : Text) : Plan :=
  match Token.listOf source with
  | .error e => { ending := .code 1, err := e.report s.input.toText ++ ['\n'] }
  | .ok ts => ofTokens s ts

def ofContent (s : Settings) (content : Utf8.Bytes) : Plan :=
  match sourceOf content with
  | .error f => refuse (s.input.toText ++ ": ".toList ++ f.message)
  | .ok source => ofSource s source

def ofSettings (disk : Disk) (s : Settings) : Plan :=
  match disk s.input with
  | .error .nulInPath => { ending := .broken (.file .nulInPath s.input) }
  | .error f => refuse (s.input.toText ++ ": ".toList ++ f.message s.input)
  | .ok content => ofContent s content

def ofArguments (disk : Disk) (a : Arguments) : Plan :=
  match Settings.resolve disk a with
  | .error f => ofFault f
  | .ok s => ofSettings disk s

def ofCommandLine (disk : Disk) (argv : List Text) : Plan :=
  match Arguments.ofCommandLine argv with
  | .error i => ofInterruption i
  | .ok a => ofArguments disk a

def reads (argv : List Text) : List Path :=
  match Arguments.ofCommandLine argv with
  | .error _ => []
  | .ok a =>
    let input := Path.ofText a.input
    [Config.source (Settings.pathOf? a.config) input.parent, input]

end Plan

namespace Run

def ofPlan (tree : FileTree) (plan : Plan) : Run :=
  match plan.write? with
  | none => ⟨plan.ending, plan.out, plan.err, tree⟩
  | some (p, content) =>
    match tree.write p content with
    | .ok tree' => ⟨plan.ending, plan.out, plan.err, tree'⟩
    | .error f => ⟨.broken (.file f p), plan.out, plan.err, tree⟩

def ofCommandLine (tree : FileTree) (argv : List Text) : Run :=
  ofPlan tree (.ofCommandLine tree.read argv)

end Run

end MathTokens
