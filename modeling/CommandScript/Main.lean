import CommandScript.Console.CommandLine

/-!
The program. It reads files and lines and writes what the console says; nothing else is decided
here.
-/

namespace CommandScript
set_option autoImplicit false

/-- Writes what stands in the terminal, and empties it. -/
def flush (c : Console) : IO Console := do
  (← IO.getStdout).putStr c.terminal.out
  (← IO.getStdout).flush
  (← IO.getStderr).putStr c.terminal.err
  pure (c.onTerminal fun t => { t with out := "", err := "" })

def readFile (path : String) : IO (Except ReadFailure ByteArray) := do
  try
    return .ok (← IO.FS.readBinFile path)
  catch
    | .noFileOrDirectory .. => return .error .notFound
    | .inappropriateType .. => return .error .isDirectory
    | e => return .error (.other (toString e))

/-- The next line, if there is one; a line that is no text is `none` inside. -/
def readLine (stdin : IO.FS.Stream) : IO (Option (Option String)) := do
  try
    let line ← stdin.getLine
    return if line.isEmpty then none else some (some line)
  catch _ => return some none

partial def interact (stdin : IO.FS.Stream) (c : Console) : IO UInt32 := do
  let c ← flush c.prompt
  match ← readLine stdin with
  | none => return 0
  | some (some line) => interact stdin (← flush (c.enter line))
  | some none =>
    let _ ← flush c.reportUnreadable
    return 1

def finish (o : Outcome) : IO UInt32 := do
  (← IO.getStdout).putStr o.out
  (← IO.getStdout).flush
  (← IO.getStderr).putStr o.err
  return o.code.toUInt32

end CommandScript

open CommandScript in
def main (args : List String) : IO UInt32 := do
  match Invocation.ofArguments args with
  | .console => CommandScript.interact (← IO.getStdin) Console.start
  | .script path => finish (.ofScript path (← readFile path))
  | .misuse => finish .misuse
