import AsOf.CommandLine.Run

/-!
# The command line

Reads the arguments, gets the contents of the files that they name, and prints what the command
answers. The journal goes to the error output.
-/

namespace AsOf

/-- Why the system refuses a file. One kind of system error covers both what is a directory and what
is none, and one both a name that is too long and a name with a NUL; their numbers tell them
apart. -/
def ReadError.ofSystem : IO.Error → ReadError
  | .noFileOrDirectory .. => .missing
  | .inappropriateType _ code _ => if code = 21 then .isADirectory else .notADirectory
  | .invalidArgument _ code _ => if code = 22 then .nulInName else .nameTooLong
  | .permissionDenied .. => .other "Permission denied (os error 13)"
  | e => .other (toString e)

/-- The paths that an invocation names. -/
def Invocation.paths (i : Invocation) : List String :=
  let source := match i.request with
    | .resolve source .. | .scan source .. | .history source => source
  i.config.toList ++ [source.path]

/-- The content of a file, or why it cannot be read. -/
def readFile (path : String) : IO (Except ReadError String) := do
  try
    match String.fromUTF8? (← IO.FS.readBinFile path) with
    | some content => return .ok content
    | none => return .error .notText
  catch e => return .error (.ofSystem e)

/-- The contents of files that were read beforehand. -/
def FileReader.ofList (files : List (String × Except ReadError String)) : FileReader := fun path =>
  (files.lookup path).getD (.error .missing)

end AsOf

open AsOf in
/-- Runs a command. -/
def main (args : List String) : IO UInt32 := do
  match Invocation.read args with
  | .error e =>
    IO.eprintln (e.message.getD e.kind.name)
    return 2
  | .ok i =>
    let files ← i.paths.mapM fun path => return (path, ← readFile path)
    let (result, journal) := i.run (FileReader.ofList files)
    for line in journal.lines do IO.eprint line
    match result with
    | .ok lines =>
      IO.print (printLines lines)
      return 0
    | .error e =>
      IO.eprintln e.text
      return 1
