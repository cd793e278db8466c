import CommandScript.Session

/-!
The console: a session whose commands write to a terminal. It is fed line by line, and each line runs
in the frame that the lines before it left. An error ends its line only; it is written to the error
output and kept for the `lasterror` command.
-/

namespace CommandScript
set_option autoImplicit false

/-- What was written to the two outputs so far, and the latest error. -/
structure Terminal where
  out : String
  err : String
  lastError : Option String
  deriving DecidableEq

namespace Terminal

def blank : Terminal := ⟨"", "", none⟩

def write (s : String) (t : Terminal) : Terminal := { t with out := t.out ++ s }

def writeError (s : String) (t : Terminal) : Terminal := { t with err := t.err ++ s }

end Terminal

structure Console where
  session : Session Terminal

namespace Console

/-! ## Commands -/

/-- The command that writes the text which `line` finds in the terminal, as a line. -/
def printing (name description : String) (line : Terminal → String) : Command Terminal where
  name := name
  description := description
  params := []
  body _ t := (.ok (), t.write (line t ++ "\n"))

def echo : Command Terminal := .echo fun s t => (.ok (), t.write s)

def lastError : Command Terminal :=
  printing "lasterror" "prints the most recent error" fun t => t.lastError.getD "no errors"

/-- The command that lists itself behind the usage of the others. -/
def help : Command Terminal :=
  let others := (Registry.ofCommands [echo, lastError]).usage
  printing "help" "lists the available commands" fun _ =>
    others ++ "\nhelp - lists the available commands"

def start : Console := ⟨.start [echo, lastError, help] .blank false⟩

/-! ## Lines -/

/-- Does something with the terminal. -/
def onTerminal (f : Terminal → Terminal) (c : Console) : Console :=
  let m := c.session.machine
  ⟨{ c.session with machine := { m with host := f m.host } }⟩

def terminal (c : Console) : Terminal := c.session.machine.host

def prompt (c : Console) : Console := c.onTerminal (·.write ">>> ")

/-- Writes an error and keeps it. -/
def report (e : ScriptError) (c : Console) : Console :=
  c.onTerminal fun t => { t.writeError (e.message ++ "\n") with lastError := some e.message }

/-- Runs a line in the session. -/
def enter (line : String) (c : Console) : Console :=
  match c.session.feed line with
  | (.ok (), s) => ⟨s⟩
  | (.error e, s) => report e ⟨s⟩

/-- Writes that the line is no text. -/
def reportUnreadable (c : Console) : Console :=
  c.onTerminal
    (·.writeError " ERROR lsf > Failed to read line: stream did not contain valid UTF-8\n")

/-- Takes lines until there are no more, with a prompt before each attempt to read one. A line that
cannot be read, here `none`, ends the session; then the answer is `false`. -/
def interact : List (Option String) → Console → Bool × Console
  | [], c => (true, c.prompt)
  | some line :: rest, c => interact rest (c.prompt.enter line)
  | none :: _, c => (false, c.prompt.reportUnreadable)

end Console

end CommandScript
