import ComposeGuards.Command.Run

/-! # The program

Reads the files that the invocation names, runs it, and writes the output, the messages from level
`INFO` up and the failure. The exit code is 2 for refused arguments and 1 for other failures.
-/
namespace ComposeGuards.Command

/-- Reads a file as text. -/
def readFile (path : String) : IO (Except FileFault String) := do
  try
    let bytes ← IO.FS.readBinFile path
    match String.fromUTF8? bytes with
    | some text => return .ok text
    | none => return .error .notUtf8
  catch
    | .noFileOrDirectory .. => return .error .missing
    | .inappropriateType .. => return .error .directory
    | e => return .error (.other (toString e))

/-- The files as they are found before the run. -/
def readFiles (paths : List String) : IO Files := do
  let found ← paths.mapM fun path => return (path, ← readFile path)
  return fun path => (found.lookup path).getD (.error .missing)

def usage : String :=
  "usage: decode INPUT\n       filter INPUT [--config FILE] [--strict] [--json]\n"

/-- What is written about a failure, and the exit code. -/
def report : Failure → String × UInt32
  | .usage .help => (usage, 0)
  | .usage _ => (usage, 2)
  | .configUnreadable path fault => (unreadableConfigMessage path fault ++ "\n", 1)
  | .configRefused .cutOff => (refusedConfigMessage "unexpected end of text" ++ "\n", 1)
  | .configRefused .malformed => (refusedConfigMessage "malformed JSON" ++ "\n", 1)
  | .configRefused (.mismatch m) => (refusedConfigMessage m.message ++ "\n", 1)
  | .inputUnreadable path fault => (unreadableInputMessage path fault ++ "\n", 1)
  | .inputRefused e => (e.message ++ "\n", 1)

end ComposeGuards.Command

open ComposeGuards ComposeGuards.Command in
def main (args : List String) : IO UInt32 := do
  let files ← readFiles (match parse args with
    | .ok i => i.paths
    | .error _ => [])
  let outcome := run files args
  let stderr ← IO.getStderr
  for m in outcome.log do
    if m.level = .info || m.level = .warn then stderr.putStrLn m.render
  IO.print outcome.output
  match outcome.failure with
  | none => return 0
  | some f =>
    let (text, code) := report f
    stderr.putStr text
    return code
