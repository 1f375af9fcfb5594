import MathTokens.CommandLine.Word

/-!
# Arguments

The arguments of a run are read off the words from left to right. One plain word is the input, and
of a flag given twice the last value counts. What fits nowhere is collected and refused at the end,
unless the input is missing too.

The separator is dropped where the input stands next to it. A separator attached to a flag as its
value is dropped as well, which leaves the flag given but without a value.
-/

namespace MathTokens

inductive Setting (α : Type) where
  | unset
  | emptied
  | set (value : α)
deriving DecidableEq

structure Arguments where
  input : Text
  output : Setting Text
  format : Setting Format
  places? : Option Bool
  config : Setting Text
  debug : Bool
deriving DecidableEq

inductive Interruption where
  | help
  | misuse (m : Misuse)
deriving DecidableEq

namespace Arguments

structure Partial where
  input? : Option Text := none
  output : Setting Text := .unset
  format : Setting Format := .unset
  places? : Option Bool := none
  config : Setting Text := .unset
  debug : Bool := false
  unused : List Text := []
  atInput : Bool := false

def isSeparator (t : Text) : Bool :=
  t == ['-', '-']

def settingOf (value : Text) : Setting Text :=
  if isSeparator value then .emptied else .set value

def formatOf (value : Text) : Except Misuse (Setting Format) :=
  if isSeparator value then .ok .emptied
  else
    match Format.ofName? value with
    | some f => .ok (.set f)
    | none => .error (.unknownFormat value)

namespace Partial

def plain (p : Partial) (t : Text) : Partial :=
  match p.input? with
  | none => { p with input? := some t, atInput := true }
  | some _ => { p with unused := p.unused ++ [t], atInput := false }

def unknown (p : Partial) (t : Text) : Partial :=
  { p with unused := p.unused ++ [t], atInput := false }

/-- The separator is dropped before the input and right after it. -/
def separator (p : Partial) : Partial :=
  if p.input?.isNone || p.atInput then p else p.unknown ['-', '-']

def value (p : Partial) (f : Flag) (v : Text) : Except Interruption Partial :=
  match f with
  | .output => .ok { p with output := settingOf v, atInput := false }
  | .config => .ok { p with config := settingOf v, atInput := false }
  | .format =>
    match formatOf v with
    | .ok s => .ok { p with format := s, atInput := false }
    | .error m => .error (.misuse m)
  | _ => .ok p

def switch (p : Partial) (f : Flag) : Except Interruption Partial :=
  match f with
  | .help => .error .help
  | .places shown => .ok { p with places? := some shown, atInput := false }
  | .debug => .ok { p with debug := true, atInput := false }
  | _ => .ok p

end Partial

/-- What a text attached to a short flag `f` without a value makes: further short flags, each
spelled by one character, of which the first that takes a value takes the rest of the text or else
the next word. Since the first flag is always the one for help, nothing of it is used. -/
def checkCluster (f : Flag) (next? : Option Word) : Text → Except Misuse Unit
  | [] => .ok ()
  | c :: rest =>
    match Flag.ofSpelling? ['-', c] with
    | none => .error (.unexpectedValue f (c :: rest))
    | some g =>
      if !g.takesValue then checkCluster g next? rest
      else if !rest.isEmpty then .ok ()
      else
        match next? with
        | some (.plain _) => .ok ()
        | _ => .error (.missingValue g)

def attachedToSwitch (f : Flag) (short : Bool) (v : Text) (next? : Option Word) :
    Except Misuse Unit :=
  if short && !v.isEmpty then checkCluster f next? v else .error (.unexpectedValue f v)

def readWords (p : Partial) : List Word → Except Interruption Partial
  | [] => .ok p
  | .separator :: ws => readWords p.separator ws
  | .plain t :: ws => readWords (p.plain t) ws
  | .unknown t :: ws => readWords (p.unknown t) ws
  | .flag f short (some v) :: ws =>
    if f.takesValue then do readWords (← p.value f v) ws
    else
      match attachedToSwitch f short v ws.head? with
      | .ok () => do readWords (← p.switch f) ws
      | .error m => .error (.misuse m)
  | [.flag f _ none] => if f.takesValue then .error (.misuse (.missingValue f)) else p.switch f
  | .flag f _ none :: w :: ws =>
    if f.takesValue then
      match w with
      | .plain v => do readWords (← p.value f v) ws
      | _ => .error (.misuse (.missingValue f))
    else do readWords (← p.switch f) (w :: ws)

def complete (p : Partial) : Except Interruption Arguments :=
  match p.input? with
  | none => .error (.misuse .missingInput)
  | some input =>
    if p.unused.isEmpty then .ok ⟨input, p.output, p.format, p.places?, p.config, p.debug⟩
    else .error (.misuse (.unrecognized p.unused))

def ofCommandLine (ts : List Text) : Except Interruption Arguments :=
  match Word.listOf ts with
  | .error m => .error (.misuse m)
  | .ok ws => do complete (← readWords {} ws)

end Arguments

end MathTokens
