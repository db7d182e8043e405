import EditorDocs.CommandLine.Run
/-!
# The program

The program runs its command line on a machine of its own, which starts with an empty working
directory and a directory for temporary files and has no way to reach a remote source. The
arguments, the environment and, for `serve`, the input come from the system, and what the command
line prints goes back to it, with the code as the exit status. Requests are answered when the input
has ended.

Everything that is decided is decided by `CommandLine.run`; what stands here reads and prints.
-/

namespace EditorDocs.Program

/-! ## The machine -/

/-- The name of the working directory. -/
def workName : FileSystem.Name := "work"

/-- The name of the directory for temporary files. -/
def temporaryName : FileSystem.Name := "tmp"

/-- The files that the program starts with. -/
def startFiles : FileSystem.State where
  root := .directory [(workName, .directory []), (temporaryName, .directory [])]
  home := [workName]

/-- The names of a directory are listed in the order of their code points. -/
def host : Host where
  listsBefore := Text.le
  unlistable := fun _ => none
  stack := .usual
  reader := ⟨false⟩
  rendering := .usual

/-- The world that the program starts in. -/
def startWorld : World where
  host := host
  files := startFiles
  remote := fun _ => .broken "ConnectError" "Network is unreachable"
  requests := []
  records := []

/-! ## Reading and printing -/

/-- The rest of the input. -/
partial def readRest (input : IO.FS.Stream) (sofar : Bytes) : IO Bytes := do
  let chunk ← input.read 65536
  if chunk.isEmpty then pure sofar else readRest input (sofar ++ chunk.toList)

/-- A variable of the environment, if it is set. -/
def environmentValue (name : String) : IO (Option Text) := do
  pure ((← IO.getEnv name).map Text.ofString)

/-- Where the program finds itself. -/
def setting : IO CommandLine.Setting := do
  let environment : Config.Environment := {
    cacheDir := ← environmentValue "DOCNAV_CACHE_DIR"
    timeout := ← environmentValue "DOCNAV_TIMEOUT"
    logLevel := ← environmentValue "DOCNAV_LOG_LEVEL"
    logFile := ← environmentValue "DOCNAV_LOG_FILE" }
  pure ⟨Path.ofText "/tmp", environment, Text.ofNat (← IO.monoMsNow)⟩

/-- A text goes out as UTF-8. -/
def write (output : IO.FS.Stream) (t : Text) : IO Unit := do
  output.write ⟨(Utf8.encodeAll t).toArray⟩
  output.flush

/-- What is printed about a failure that no command expects. -/
def unexpectedText : Option Failure → Text
  | some e => e.kind ++ (": " : Text) ++ e.message ++ "\n"
  | none => []

end EditorDocs.Program

open EditorDocs EditorDocs.Program in
/-- The arguments are a command line, which is run. Only `serve` takes input. -/
def main (args : List String) : IO UInt32 := do
  let input ← if args.contains "serve" then readRest (← IO.getStdin) [] else pure []
  let ending := (CommandLine.run (← setting) (args.map Text.ofString) input startWorld).1
  write (← IO.getStdout) ending.output
  write (← IO.getStderr) (ending.errors ++ unexpectedText ending.unexpected)
  pure (UInt32.ofNat ending.code)
