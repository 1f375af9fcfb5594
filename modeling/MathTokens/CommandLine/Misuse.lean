import MathTokens.About
import MathTokens.CommandLine.Flag
import MathTokens.Listing.Basic

/-!
# Usage and misuse

What the command line prints about itself: the usage, the help, and what is wrong with a line of
arguments that cannot be read.
-/

namespace MathTokens

inductive Misuse where
  | ambiguous (word : Text) (candidates : List Text)
  | missingValue (flag : Flag)
  | unexpectedValue (flag : Flag) (value : Text)
  | unknownFormat (value : Text)
  | missingInput
  | unrecognized (words : List Text)
deriving DecidableEq

namespace Misuse

def joined (separator : String) (ts : List Text) : Text :=
  separator.toList.intercalate ts

def message : Misuse → Text
  | ambiguous word candidates =>
    "ambiguous option: ".toList ++ word ++ " could match ".toList ++ joined ", " candidates
  | missingValue flag => "argument ".toList ++ flag.label ++ ": expected one argument".toList
  | unexpectedValue flag value =>
    "argument ".toList ++ flag.label ++ ": ignored explicit argument ".toList ++ value.quoted
  | unknownFormat value =>
    "argument ".toList ++ Flag.format.label ++ ": invalid choice: ".toList ++ value.quoted ++
      " (choose from ".toList ++ joined ", " (Format.all.map (·.name.quoted)) ++ [')']
  | missingInput => "the following arguments are required: input".toList
  | unrecognized words => "unrecognized arguments: ".toList ++ joined " " words

end Misuse

namespace Usage

def usageText : Text :=
  "usage: ".toList ++ About.program ++ (" [-h] [-o OUTPUT] [-f \x7btext,json\x7d] [--spans | --no-spans]\n" ++
    "                [--config FILE] [--debug]\n" ++
    "                input\n").toList

def helpText : Text :=
  usageText ++ ("\n" ++
    "Tokenize MathLang source and print the token stream\n" ++
    "\n" ++
    "positional arguments:\n" ++
    "  input                 Input source file\n" ++
    "\n" ++
    "options:\n" ++
    "  -h, --help            show this help message and exit\n" ++
    "  -o OUTPUT, --output OUTPUT\n" ++
    "                        Output file (default: stdout)\n" ++
    "  -f \x7btext,json\x7d, --format \x7btext,json\x7d\n" ++
    "                        Output format (default: text)\n" ++
    "  --spans, --no-spans   Include source positions in the output (--no-spans\n" ++
    "                        turns them off)\n" ++
    "  --config FILE         Config file (default: auto-discover mathlang.toml)\n" ++
    "  --debug               Dump tokens to stderr\n").toList

def refusalText (m : Misuse) : Text :=
  usageText ++ About.program ++ ": error: ".toList ++ m.message ++ ['\n']

end Usage

end MathTokens
