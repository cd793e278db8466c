import CommandScript.Session

/-!
What reading a source does to a session: it tells the journal, and nothing else. So a source is
taken as its parse says, on a machine with the same frames and the same host.
-/

namespace CommandScript
set_option autoImplicit false

variable {σ : Type}

namespace Session

variable (source : String) (s : Session σ)

@[simp] theorem read_result : (s.read source).1 = Script.parse source := by
  unfold read Script.parse
  dsimp only
  cases Script.ofLexemes (lexemes source) <;> rfl

theorem read_eq : s.read source = (Script.parse source, (s.read source).2) :=
  Prod.ext (read_result source s) rfl

@[simp] theorem read_commands : (s.read source).2.commands = s.commands := by
  unfold read
  dsimp only
  cases Script.ofLexemes (lexemes source) <;> rfl

@[simp] theorem read_frames : (s.read source).2.machine.frames = s.machine.frames := by
  unfold read
  dsimp only
  cases Script.ofLexemes (lexemes source) <;> rfl

@[simp] theorem read_host : (s.read source).2.machine.host = s.machine.host := by
  unfold read
  dsimp only
  cases Script.ofLexemes (lexemes source) <;> rfl

variable {source : String} {s : Session σ} (action : Script → Action σ Unit)

theorem readAnd_of_error {e : ParseError} (h : Script.parse source = .error e) :
    s.readAnd action source = (.error (.parse e), (s.read source).2) := by
  rw [readAnd, read_eq, h]

theorem readAnd_of_ok {script : Script} (h : Script.parse source = .ok script) :
    s.readAnd action source =
      (let r := action script (s.read source).2.machine
       (r.1.mapError .runtime, { s with machine := r.2 })) := by
  rw [readAnd, read_eq, h]
  dsimp only [act]
  rw [read_commands]

@[simp] theorem readAnd_commands (source : String) (s : Session σ) :
    (s.readAnd action source).2.commands = s.commands := by
  cases h : Script.parse source with
  | error e =>
    rw [readAnd_of_error action h]
    exact read_commands source s
  | ok script => rw [readAnd_of_ok action h]

end Session

end CommandScript
