import MathTokens.Text.Basic

/-!
# Flags

The options of the command line: their spellings, in the order in which they are looked up, and
whether they take a value.
-/

namespace MathTokens

inductive Flag where
  | help
  | output
  | format
  | places (shown : Bool)
  | config
  | debug
deriving DecidableEq

namespace Flag

def spellings : List (Text × Flag) :=
  [("-h".toList, help), ("--help".toList, help), ("-o".toList, output), ("--output".toList, output),
   ("-f".toList, format), ("--format".toList, format), ("--spans".toList, places true),
   ("--no-spans".toList, places false), ("--config".toList, config), ("--debug".toList, debug)]

def ofSpelling? (t : Text) : Option Flag :=
  spellings.lookup t

def completions (t : Text) : List (Text × Flag) :=
  spellings.filter fun s => t.isPrefixOf s.1

def takesValue : Flag → Bool
  | output => true
  | format => true
  | config => true
  | _ => false

def label : Flag → Text
  | help => "-h/--help".toList
  | output => "-o/--output".toList
  | format => "-f/--format".toList
  | places _ => "--spans/--no-spans".toList
  | config => "--config".toList
  | debug => "--debug".toList

end Flag

end MathTokens
