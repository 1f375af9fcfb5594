import MathTokens.Run

/-!
# Command line

The files that a plan is made from are read, the plan is made, and carried out.
-/

namespace MathTokens.Disk

/-- Why the system refuses to open a file, by the number it gives. -/
def faultOf : IO.Error → FileFault
  | .inappropriateType _ 21 _ => .isFolder
  | .inappropriateType _ _ _ => .notFolder
  | .illegalOperation _ _ => .isFolder
  | .invalidArgument _ 22 _ => .nulInPath
  | .invalidArgument _ _ _ => .nameTooLong
  | _ => .notFound

def readFile (p : Path) : IO (Except FileFault Utf8.Bytes) := do
  try
    let content ← IO.FS.readBinFile (String.ofList p.toText)
    return .ok content.toList
  catch e => return .error (faultOf e)

def ofFiles (files : List (Path × Except FileFault Utf8.Bytes)) : Disk :=
  fun p => (files.lookup p).getD (.error .notFound)

end MathTokens.Disk

namespace MathTokens.Plan

def breakageText : Breakage → Text
  | .undecodableConfig f => f.message
  | .unreadableConfig f => f.message
  | .unshowableFormat f => f.message
  | .file f p => f.message p

def exitCode : Ending → UInt32
  | .code n => n.toUInt32
  | .interrupted .help => 0
  | .interrupted (.misuse _) => 2
  | .broken _ => 1

def carryOut (plan : Plan) : IO UInt32 := do
  IO.print (String.ofList plan.out)
  IO.eprint (String.ofList plan.err)
  if let .broken b := plan.ending then IO.eprintln (String.ofList (breakageText b))
  match plan.write? with
  | none => return exitCode plan.ending
  | some (p, content) =>
    try
      IO.FS.writeBinFile (String.ofList p.toText) ⟨content.toArray⟩
      return exitCode plan.ending
    catch e =>
      IO.eprintln (String.ofList ((Disk.faultOf e).message p))
      return exitCode (.broken (.file (Disk.faultOf e) p))

end MathTokens.Plan

def main (args : List String) : IO UInt32 := do
  let argv := args.map String.toList
  let files ← (MathTokens.Plan.reads argv).mapM fun p => return (p, ← MathTokens.Disk.readFile p)
  (MathTokens.Plan.ofCommandLine (MathTokens.Disk.ofFiles files) argv).carryOut
