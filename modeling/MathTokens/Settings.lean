import MathTokens.CommandLine.Arguments
import MathTokens.Config
import MathTokens.Toml.Printer

/-!
# Settings

What a run does is settled by the command line, by the configuration where the command line is
silent, and by defaults where both are. A form of listing that the configuration gives has to be one
that exists, even if the command line gives another.
-/

namespace MathTokens

structure Settings where
  input : Path
  output? : Option Path
  /-- The form of the listing. There is none if the command line names none where it should; lines
  are written then. -/
  format? : Option Format
  places : Bool
  debug : Bool
deriving DecidableEq

namespace Settings

inductive Fault where
  | config (f : Config.Fault)
  | unknownFormat (shown : Text)
  | unshowableFormat (f : Toml.Unshowable)

/-- The path that a setting names. An empty text names none. -/
def pathOf? : Setting Text → Option Path
  | .set (c :: t) => some (.ofText (c :: t))
  | _ => none

def outputEntries (config : Toml.Table) : Toml.Table :=
  match config.lookup "output".toList with
  | some (.table entries) => entries
  | _ => []

def Fault.ofFormat (value : Toml) : Fault :=
  match value.shown with
  | .ok t => .unknownFormat t
  | .error f => .unshowableFormat f

def configFormat (entries : Toml.Table) : Except Fault (Option Format) :=
  match entries.lookup "format".toList with
  | none => .ok none
  | some value =>
    match value with
    | .string t =>
      match Format.ofName? t with
      | some f => .ok (some f)
      | none => .error (.ofFormat value)
    | _ => .error (.ofFormat value)

/-- Whether the configuration shows places. Only a truth value counts. -/
def configPlaces (entries : Toml.Table) : Option Bool :=
  match entries.lookup "spans".toList with
  | some (.bool b) => some b
  | _ => none

/-- The form that the command line gives, or else the configuration, or else lines. -/
def chooseFormat (given : Setting Format) (config? : Option Format) : Option Format :=
  match given with
  | .set f => some f
  | .emptied => none
  | .unset => some (config?.getD .text)

def resolve (disk : Disk) (a : Arguments) : Except Fault Settings := do
  let input := Path.ofText a.input
  let config ← (Config.load disk (pathOf? a.config) input.parent).mapError .config
  let entries := outputEntries config
  let format? ← configFormat entries
  return {
    input
    output? := pathOf? a.output
    format? := chooseFormat a.format format?
    places := a.places?.getD ((configPlaces entries).getD false)
    debug := a.debug }

def unknownFormatMessage (shown : Text) : Text :=
  "invalid output format in config (expected one of ".toList ++
    Misuse.joined ", " (Format.all.map Format.name) ++ "): ".toList ++ shown

end Settings

end MathTokens
