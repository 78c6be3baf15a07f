import DecisionDiagram.CommandLine
/-!
The program: takes the arguments, reads the files that they name, and prints the report.
-/
namespace DecisionDiagram.CommandLine

def usage : String :=
  "usage: --first_file FILE --second_file FILE [--operator AND|OR|NOT|NAND|NOR|XOR] " ++
    "[--weights_file FILE] [--log_level LEVEL]"

/-- A folder opens without complaint and fails when it is read, with an error that names no file. -/
def fileDefect : IO.Error → FileDefect
  | .inappropriateType (some _) .. => .underFile
  | .inappropriateType none .. => .directory
  | .invalidArgument .. => .nameTooLong
  | _ => .missing

def openFile (path : String) : IO (Except Fault Text.Bytes) := do
  try
    return .ok (← IO.FS.readBinFile path).toList
  catch e =>
    return .error (.unreadable (fileDefect e) path)

def openFiles (paths : List String) : IO (String → Except Fault Text.Bytes) := do
  let contents ← paths.mapM fun path => return (path, ← openFile path)
  return fun path => (contents.lookup path).getD (.error (.unreadable .missing path))

def start (arguments : List String) : IO UInt32 := do
  match readArguments arguments with
  | .help =>
    IO.println usage
    return 0
  | .misuse =>
    IO.eprintln usage
    return 2
  | .request r =>
    match run (← openFiles ([r.first, r.second, r.weights].filterMap Given.text?)) r with
    | .printed status out err =>
      IO.print out
      IO.eprint err
      return status.toUInt32
    | .escaped fault =>
      IO.eprintln ((fault.message? {}).getD "")
      return 1

end DecisionDiagram.CommandLine

def main (arguments : List String) : IO UInt32 := DecisionDiagram.CommandLine.start arguments
