import TypeMend.Command.Run

/-!
# The program

The command on the real console and the real file system.
-/
namespace TypeMend.Program

def usage : String :=
  "Walk through structural type errors and apply the fixes you pick\n\n" ++
  "Usage: typemend [OPTIONS] <SNAPSHOT>\n\n" ++
  "Options:\n" ++
  "  -p, --project <PROJECT>\n  -c, --config <CONFIG>\n  -y, --yes\n      --dryRun\n" ++
  "      --reportJson <REPORT_JSON>\n      --indentUnit <INDENT_UNIT>\n" ++
  "      --maxLayerDepth <MAX_LAYER_DEPTH>\n      --noOuterCandidates\n      --noColor\n" ++
  "  -h, --help\n  -V, --version\n"

def version : String :=
  "typemend 0.1.0\n"

/-- What the user is told about arguments that are not accepted. -/
def argumentsMessage : ArgumentsFault → String
  | .unknownArgument => "error: unexpected argument"
  | .missingRequired => "error: the snapshot is missing"
  | .tooManyValues => "error: unexpected value for an option that takes none"
  | .conflict => "error: an option is given more than once"
  | .valueValidation => "error: invalid value for an option"
  | .invalidValue => "error: a value is required for an option"
  | .displayHelp => usage
  | .displayVersion => version

/-- The file fault behind a failure of the system. -/
def faultOf : IO.Error → FileFault
  | .noFileOrDirectory .. => .notFound
  | error => .other (toString error)

def readFile (path : String) : IO (Except FileFault String) := do
  try
    match String.fromUTF8? (← IO.FS.readBinFile path) with
    | some text => return .ok text
    | none => return .error .notUtf8
  catch error => return .error (faultOf error)

def writeFile (path text : String) : IO (Except FileFault Unit) := do
  try
    IO.FS.writeFile path text
    return .ok ()
  catch error => return .error (faultOf error)

/-- Writes to the console at once. -/
def print (text : String) : IO Unit := do
  let output ← IO.getStdout
  output.putStr text
  output.flush

/-- Asks until a line is understood. -/
partial def ask (candidates : Nat) : IO Decision := do
  print (Renderer.choiceHint candidates)
  let line ← (← IO.getStdin).getLine
  if line.isEmpty then
    print "\n"
    return .quit
  match Answer.parse? line candidates with
  | some decision =>
    print "\n"
    return decision
  | none =>
    print (Answer.complaint line)
    ask candidates

/-- The presenter on the real console. -/
def presenter (renderer : Renderer) (autoSelect : AutoSelect) : Presenter IO where
  choose view :=
    match autoSelect with
    | .first => do
      print (Console.autoText renderer view)
      return .select 0
    | .none =>
      try
        print (renderer.problem view ++ "\n")
        ask view.prompts.length
      catch _ => return .quit
  advise view := print (renderer.advice view ++ "\n\n")

def host : Host IO where
  isFile path := do
    match ← readFile path with
    | .ok _ => return true
    | .error fault => return fault = .notUtf8
  read := readFile
  write := writeFile
  print := print
  presenter := presenter

/-- The message for an error with all its causes. -/
def errorMessage (error : CommandError) : String :=
  match error.chain with
  | [] => "Error"
  | [message] => s!"Error: {message}"
  | message :: causes => s!"Error: {message}\n\nCaused by:\n    " ++ "\n    ".intercalate causes

end TypeMend.Program

open TypeMend in
/-- Runs the command with the arguments of the program. -/
def main (argv : List String) : IO UInt32 := do
  match Arguments.parse argv with
  | .error fault =>
    match fault with
    | .displayHelp | .displayVersion =>
      Program.print (Program.argumentsMessage fault)
      return 0
    | _ =>
      IO.eprintln (Program.argumentsMessage fault)
      return 2
  | .ok args =>
    let color := !args.noColor && (← (← IO.getStdout).isTty)
    match ← (Command.run Program.host args color).run with
    | .ok _ => return 0
    | .error error =>
      IO.eprintln (Program.errorMessage error)
      return 1
