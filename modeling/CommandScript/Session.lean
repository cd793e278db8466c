import CommandScript.Machine.Evaluate
import CommandScript.Parser.Statement

/-!
Sessions: a registry of commands and the machine that runs scripts with them. A source that is no
script changes nothing but the journal.
-/

namespace CommandScript
set_option autoImplicit false

/-- Why a source did not run to its end. -/
inductive ScriptError where
  | parse (e : ParseError)
  | runtime (e : RuntimeError)
  deriving DecidableEq

def ScriptError.message : ScriptError → String
  | parse e => e.message
  | runtime e => e.message

structure Session (σ : Type) where
  commands : Registry σ
  machine : Machine σ

namespace Session

variable {σ : Type}

/-- A session with the given commands. A journal, if one is kept, begins with them. -/
def start (commands : List (Command σ)) (host : σ) (keepsJournal : Bool) : Session σ :=
  let journal := (commands.map fun c => Event.registered c.usage).reverse
  ⟨.ofCommands commands, .start host (if keepsJournal then some journal else none)⟩

/-- Does something with the machine. -/
def act {α : Type} (action : Action σ α) (s : Session σ) : Except RuntimeError α × Session σ :=
  let r := action s.machine
  (r.1, { s with machine := r.2 })

/-- Reads a script. -/
def read (source : String) (s : Session σ) : Except ParseError Script × Session σ :=
  let ls := lexemes source
  let m := s.machine.note (.lexed ls.length)
  match Script.ofLexemes ls with
  | .error e => (.error e, { s with machine := m })
  | .ok script => (.ok script, { s with machine := m.note (.parsed script.length) })

/-- Reads a script and does something with it. -/
def readAnd (action : Script → Action σ Unit) (source : String) (s : Session σ) :
    Except ScriptError Unit × Session σ :=
  match s.read source with
  | (.error e, s) => (.error (.parse e), s)
  | (.ok script, s) =>
    let r := s.act (action script)
    (r.1.mapError .runtime, r.2)

/-- Runs a source in a frame of its own, of which nothing is left afterwards. -/
def run (source : String) (s : Session σ) : Except ScriptError Unit × Session σ :=
  s.readAnd (Machine.run s.commands) source

/-- Runs a source in the frame of the session, which keeps what it sets and declares. -/
def feed (source : String) (s : Session σ) : Except ScriptError Unit × Session σ :=
  s.readAnd (Machine.executeAll s.commands) source

end Session

end CommandScript
