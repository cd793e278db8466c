import Mathlib.Data.List.Induction
import CommandScript.Console.Basic
import CommandScript.Proofs.Machine.Alike

/-!
Lines at a console. Each line is run where the lines before it left the session, whether they failed or not.
The main statement tells all that a console writes from the runs of its lines: a prompt for each line and
what the commands of the line answer, the error of each line that failed, and what `lasterror` answers is
the error of the last line that failed before its own.
-/

namespace CommandScript
set_option autoImplicit false

/-! ## Elements and those before them -/

/-- What `f` makes of each element and of the elements before it. -/
def mapWithBefore {α β : Type} (f : List α → α → β) (as : List α) : List β :=
  as.mapIdx fun k a => f (as.take k) a

@[simp] theorem mapWithBefore_concat {α β : Type} (f : List α → α → β) (as : List α) (a : α) :
    mapWithBefore f (as ++ [a]) = mapWithBefore f as ++ [f as a] := by
  unfold mapWithBefore
  rw [List.mapIdx_concat, List.take_left]
  congr 1
  refine List.mapIdx_eq_mapIdx_iff.mpr fun k hk => ?_
  rw [List.take_append_of_le_length (Nat.le_of_lt hk)]

namespace Terminal

@[simp] theorem write_empty (t : Terminal) : t.write "" = t := by
  rw [write, String.append_empty]

@[simp] theorem write_write (t : Terminal) (s s' : String) : (t.write s).write s' = t.write (s ++ s') := by
  rw [write, write, write, String.append_assoc]

end Terminal

namespace Console

/-! ## What commands answer -/

def helpText : String :=
  (Registry.ofCommands [echo, lastError]).usage ++ "\nhelp - lists the available commands"

/-- What a command writes, if `last` is the error that is kept. -/
def reply (last : Option String) (call : CommandCall) : String :=
  if call.command = "lasterror" then last.getD "no errors" ++ "\n"
  else if call.command = "help" then helpText ++ "\n"
  else ((call.args.head?.bind Argument.value?).map Value.toText).getD "" ++ "\n"

def replies (last : Option String) (calls : List CommandCall) : String :=
  String.join (calls.map (reply last))

@[simp] theorem replies_concat (last : Option String) (calls : List CommandCall) (call : CommandCall) :
    replies last (calls ++ [call]) = replies last calls ++ reply last call := by
  simp [replies]

/-- The command never fails and writes its answer. -/
def Replying (c : Command Terminal) : Prop :=
  ∀ args t, c.body args t = (.ok (), t.write (reply t.lastError ⟨c.name, args⟩))

theorem replying_of_find? {name : String} {c : Command Terminal}
    (h : start.session.commands.find? name = some c) : Replying c := by
  have hfind : start.session.commands.find? name =
      if "help" = name then some help else if "lasterror" = name then some lastError
      else if "echo" = name then some echo else none := by
    change (((Registry.empty.register echo).register lastError).register help).find? name = _
    simp [help, lastError, printing, echo, Command.echo]
  rw [hfind] at h
  split at h
  · cases h
    exact fun args t => rfl
  split at h
  · cases h
    exact fun args t => rfl
  split at h
  · cases h
    exact fun args t => rfl
  · exact nomatch h

/-! ## Runs of lines -/

/-- How a line ended, and the commands that were run for it, in order. -/
structure LineRun where
  result : Except ScriptError Unit
  calls : List CommandCall

def LineRun.error? (run : LineRun) : Option String :=
  match run.result with
  | .ok () => none
  | .error e => some e.message

def LineRun.errorLine? (run : LineRun) : Option String := run.error?.map (· ++ "\n")

/-- The error of the last line that failed. -/
def latestError (runs : List LineRun) : Option String := runs.reverse.findSome? LineRun.error?

/-- The session of the console, with a journal that begins here. -/
def journaled (c : Console) : Session Terminal :=
  { c.session with machine := { c.session.machine with journal := some [] } }

/-- How the line runs here; the commands are those that a journal tells of. -/
def lineRun (line : String) (c : Console) : LineRun :=
  ⟨(c.session.feed line).1,
    (invocations ((c.journaled.feed line).2.machine.journal.getD [])).reverse⟩

/-- The runs of the lines, each behind those before it. -/
def lineRuns : List String → List LineRun :=
  mapWithBefore fun before line => (start.interact (before.map some)).2.lineRun line

/-- With a journal and without one the frames and the terminal are the same; what was written since `before`
are the answers of the commands that the journal tells of. -/
structure Follows (before : Terminal) (m m' : Machine Terminal) : Prop where
  frames : m'.frames = m.frames
  host : m'.host = m.host
  told : ∃ journal, m.journal = some journal ∧
    m.host = before.write (replies before.lastError (invocations journal).reverse)

variable {before : Terminal}

theorem likeness_follows : Machine.Likeness (Follows before) where
  frames h := h.frames
  withFrames _ h := ⟨rfl, h.host, h.told⟩
  note {m m' e} he h := by
    obtain ⟨journal, hjournal, hhost⟩ := h.told
    refine ⟨h.frames, h.host, e :: journal, ?_, ?_⟩
    · rw [Machine.note, hjournal, Option.map_some]
    · have hsame : invocations (e :: journal) = invocations journal := List.filterMap_cons_none he
      rw [hsame]
      exact hhost

theorem alike_invoke {c : Command Terminal} (hc : Replying c) (values : List Value) :
    Action.EndAlike (Follows before) (Action.invoke c values) (Action.invoke c values) := by
  intro m m' h
  unfold Action.invoke
  cases c.bind values with
  | error f => exact ⟨rfl, h⟩
  | ok args =>
    obtain ⟨journal, hjournal, hhost⟩ := h.told
    have hperform (t : Terminal) :
        c.perform args t = (.ok (), t.write (reply t.lastError ⟨c.name, args⟩)) := by
      rw [Command.perform, hc args t]
    -- An error is kept when its line has ended, so all answers of a line see the same one.
    have hlast : m.host.lastError = before.lastError := by
      rw [hhost]
      rfl
    dsimp only
    rw [h.host, hperform]
    refine ⟨rfl, h.frames, rfl, .invoked c.name args :: journal, ?_, ?_⟩
    · rw [Machine.note, hjournal, Option.map_some]
    · have hcalls : invocations (.invoked c.name args :: journal) =
          ⟨c.name, args⟩ :: invocations journal := rfl
      rw [hcalls, List.reverse_cons, replies_concat, hlast, hhost, Terminal.write_write]

theorem feed_follows {c : Console} (hc : c.session.commands = start.session.commands) (line : String) :
    (c.session.feed line).1 = (c.journaled.feed line).1 ∧
      Follows c.terminal (c.journaled.feed line).2.machine (c.session.feed line).2.machine := by
  have hbegin : Follows c.terminal c.journaled.machine c.session.machine :=
    ⟨rfl, rfl, [], rfl, (Terminal.write_empty c.terminal).symm⟩
  refine Session.feed_alike likeness_follows (fun name => ?_) hbegin line
  change CommandsLike _ (c.session.commands.find? name) (c.session.commands.find? name)
  rw [hc]
  cases hfound : start.session.commands.find? name with
  | none => exact .none
  | some command => exact .some fun values => alike_invoke (replying_of_find? hfound) values

/-! ## One line -/

/-- The terminal behind a line that runs like this. -/
def LineRun.on (run : LineRun) (t : Terminal) : Terminal :=
  ⟨t.out ++ replies t.lastError run.calls, t.err ++ run.errorLine?.getD "",
    run.error?.or t.lastError⟩

section

variable (line : String) (c : Console)

@[simp] theorem commands_enter : (c.enter line).session.commands = c.session.commands := by
  have hfeed := Session.readAnd_commands (Machine.executeAll c.session.commands) line c.session
  change (c.session.feed line).2.commands = _ at hfeed
  unfold enter
  rcases h : c.session.feed line with ⟨_ | _, s⟩
  all_goals
    rw [h] at hfeed
    exact hfeed

/-- The frames stay as the line leaves them, whether it fails or not. -/
theorem frames_enter :
    (c.enter line).session.machine.frames = (c.session.feed line).2.machine.frames := by
  unfold enter
  rcases c.session.feed line with ⟨_ | _, s⟩
  · rfl
  · rfl

theorem terminal_enter {line : String} {c : Console}
    (hc : c.session.commands = start.session.commands) :
    (c.enter line).terminal = (c.lineRun line).on c.terminal := by
  obtain ⟨hresult, hfollows⟩ := feed_follows hc line
  obtain ⟨journal, hjournal, hhost⟩ := hfollows.told
  rw [← hfollows.host] at hhost
  have hcalls : (c.lineRun line).calls = (invocations journal).reverse := by
    rw [lineRun, hjournal]
    rfl
  unfold LineRun.on LineRun.errorLine? LineRun.error?
  rw [hcalls, lineRun]
  unfold enter
  rcases h : c.session.feed line with ⟨e | _, s⟩
  · rw [h] at hhost
    change { s.machine.host.writeError (e.message ++ "\n") with lastError := some e.message } = _
    rw [hhost]
    rfl
  · rw [h] at hhost
    change s.machine.host = ⟨_, c.terminal.err ++ "", _⟩
    rw [hhost, String.append_empty]
    rfl

end

/-! ## Lines one after the other -/

/-- The console behind the lines, before the next prompt. -/
def enterEach (lines : List String) (c : Console) : Console :=
  lines.foldl (fun c line => c.prompt.enter line) c

@[simp] theorem enterEach_concat (lines : List String) (line : String) (c : Console) :
    enterEach (lines ++ [line]) c = (enterEach lines c).prompt.enter line := by
  rw [enterEach, List.foldl_append]
  rfl

theorem interact_append (lines : List String) (rest : List (Option String)) (c : Console) :
    c.interact (lines.map some ++ rest) = (enterEach lines c).interact rest := by
  induction lines generalizing c with
  | nil => rfl
  | cons line lines ih => exact ih (c.prompt.enter line)

/-- A console takes all lines that can be read. -/
theorem interact_map_some (lines : List String) (c : Console) :
    c.interact (lines.map some) = (true, (enterEach lines c).prompt) := by
  rw [← List.append_nil (lines.map some), interact_append]
  rfl

@[simp] theorem commands_enterEach (lines : List String) (c : Console) :
    (enterEach lines c).session.commands = c.session.commands := by
  induction lines generalizing c with
  | nil => rfl
  | cons line lines ih => exact (ih (c.prompt.enter line)).trans (commands_enter line c.prompt)

@[simp] theorem lineRuns_concat (lines : List String) (line : String) :
    lineRuns (lines ++ [line]) = lineRuns lines ++ [(enterEach lines start).prompt.lineRun line] := by
  rw [lineRuns, mapWithBefore_concat, interact_map_some]

/-! ## All that is written -/

@[simp] theorem latestError_concat (runs : List LineRun) (run : LineRun) :
    latestError (runs ++ [run]) = run.error?.or (latestError runs) := by
  unfold latestError
  rw [List.reverse_concat, List.findSome?_cons]
  cases run.error? <;> rfl

/-- What is written for a line: the prompt, and the answers of its commands. -/
def lineOut (before : List LineRun) (run : LineRun) : String :=
  ">>> " ++ replies (latestError before) run.calls

/-- The terminal behind the prompt that follows the lines. -/
def transcript (runs : List LineRun) : Terminal :=
  ⟨String.join (mapWithBefore lineOut runs) ++ ">>> ", String.join (runs.filterMap LineRun.errorLine?),
    latestError runs⟩

@[simp] theorem transcript_concat (runs : List LineRun) (run : LineRun) :
    transcript (runs ++ [run]) = (run.on (transcript runs)).write ">>> " := by
  have herr : String.join ((runs ++ [run]).filterMap LineRun.errorLine?) =
      String.join (runs.filterMap LineRun.errorLine?) ++ run.errorLine?.getD "" := by
    rw [List.filterMap_append, String.join_append]
    congr 1
    unfold LineRun.errorLine?
    cases h : run.error? <;> simp [h]
  unfold transcript LineRun.on Terminal.write
  rw [mapWithBefore_concat, String.join_append, herr, latestError_concat]
  congr 1
  simp [lineOut, String.append_assoc]

theorem terminal_enterEach (lines : List String) :
    (enterEach lines start).prompt.terminal = transcript (lineRuns lines) := by
  induction lines using List.reverseRecOn with
  | nil => rfl
  | append_singleton lines line ih =>
    have hcommands := commands_enterEach lines start
    rw [lineRuns_concat, transcript_concat, ← ih, enterEach_concat]
    exact congrArg (Terminal.write ">>> ") (terminal_enter hcommands)

/-- What is logged for a line that is no text. -/
def unreadableLine : String :=
  " ERROR lsf > Failed to read line: stream did not contain valid UTF-8\n"

/-- A console takes all lines that can be read and ends well behind them. It has written a prompt for each
line, the answers of its commands behind it, and a last prompt, and the errors of the lines that failed in
order. A line that cannot be read ends it after all that: it adds a line to the errors, and leaves what was
answered, the error that is kept and the frames as they are. -/
theorem interact_lines (lines : List String) :
    let c := (start.interact (lines.map some)).2
    let runs := lineRuns lines
    (start.interact (lines.map some)).1 = true ∧
      c.terminal.out = String.join (mapWithBefore lineOut runs) ++ ">>> " ∧
      c.terminal.err = String.join (runs.filterMap LineRun.errorLine?) ∧
      c.terminal.lastError = latestError runs ∧
      (∀ line, (start.interact ((lines ++ [line]).map some)).2.session.machine.frames =
        (c.session.feed line).2.machine.frames) ∧
      (∀ line, let r := c.session.feed line
        let told := c.journaled.feed line
        told.1 = r.1 ∧ told.2.machine.frames = r.2.machine.frames ∧
          told.2.machine.host = r.2.machine.host) ∧
      ∀ more, let r := start.interact (lines.map some ++ none :: more)
        r.1 = false ∧
          r.2.terminal.out = c.terminal.out ∧
          r.2.terminal.err = c.terminal.err ++ unreadableLine ∧
          r.2.terminal.lastError = c.terminal.lastError ∧
          r.2.session.machine.frames = c.session.machine.frames ∧
          r.2.session.commands = c.session.commands := by
  have hend : start.interact (lines.map some) = (true, (enterEach lines start).prompt) :=
    interact_map_some lines start
  have hterminal := terminal_enterEach lines
  rw [hend]
  intro c runs
  refine ⟨rfl, congrArg Terminal.out hterminal, congrArg Terminal.err hterminal,
    congrArg Terminal.lastError hterminal, fun line => ?_, fun line => ?_, fun more => ?_⟩
  · rw [interact_map_some, enterEach_concat]
    exact frames_enter line c
  · have hcommands : c.session.commands = start.session.commands := commands_enterEach lines start
    obtain ⟨hresult, hfollows⟩ := feed_follows hcommands line
    exact ⟨hresult.symm, hfollows.frames.symm, hfollows.host.symm⟩
  · rw [interact_append]
    exact ⟨rfl, rfl, rfl, rfl, rfl, rfl⟩

/-- The first line fails behind its own `lasterror`, the second one answers with that error, and the third
one is no text. What the first line has set is there to the end, and no line behind the third one runs. -/
theorem interact_lines_unreadable :
    let message := "Runtime error: function not found `f` at line 1"
    let r := start.interact
      [some "$x = 1; lasterror; !f\n", some "lasterror\n", none, some "echo late\n"]
    r.1 = false ∧
      r.2.terminal.out = ">>> no errors\n>>> " ++ message ++ "\n>>> " ∧
      r.2.terminal.err =
        message ++ "\n ERROR lsf > Failed to read line: stream did not contain valid UTF-8\n" ∧
      r.2.terminal.lastError = some message ∧
      r.2.session.machine.frames.get "x" = .number 1 := by
  intro message r
  let c := (start.interact (["$x = 1; lasterror; !f\n", "lasterror\n"].map some)).2
  obtain ⟨-, -, -, -, -, -, hunreadable⟩ :=
    interact_lines ["$x = 1; lasterror; !f\n", "lasterror\n"]
  obtain ⟨hends, hout, herr, hlast, hframes, -⟩ := hunreadable [some "echo late\n"]
  have hterminal : c.terminal =
      ⟨">>> no errors\n>>> " ++ message ++ "\n>>> ", message ++ "\n", some message⟩ := by
    decide +kernel
  have hx : c.session.machine.frames.get "x" = .number 1 := by decide +kernel
  refine ⟨hends, hout.trans (congrArg Terminal.out hterminal), herr.trans ?_,
    hlast.trans (congrArg Terminal.lastError hterminal),
    (congrArg (FrameStack.get "x") hframes).trans hx⟩
  change c.terminal.err ++ unreadableLine = _
  rw [hterminal]
  decide +kernel

end Console

end CommandScript
