import CommandScript.RuntimeError

/-!
Commands. A command is what the host of a script offers: a name, parameters, and a body that works
on the state of the host. Values are bound to the parameters in order before the body sees them.
-/

namespace CommandScript
set_option autoImplicit false

/-- A command of a host with states `σ`. Its body changes the state and may fail with a reason. -/
structure Command (σ : Type) where
  name : String
  description : String
  params : List CommandParameter
  body : List Argument → σ → Except String Unit × σ

namespace Command

variable {σ : Type}

/-- How to use the command, on one line. -/
def usage (c : Command σ) : String :=
  c.name ++ String.join (c.params.map fun p => " " ++ p.usage) ++
    if c.description.isEmpty then "" else " - " ++ c.description

def requiredCount (c : Command σ) : Nat := c.params.countP (·.required)

/-! ## Binding -/

/-- One argument for each parameter: the values in order, each converted to the type of its
parameter, and nothing for the parameters behind the last value. -/
def bindEach : List CommandParameter → List Value → Except Failure (List Argument)
  | [], _ => .ok []
  | _ :: ps, [] => (bindEach ps []).map (.missing :: ·)
  | p :: ps, v :: vs =>
    match p.type.convert? v with
    | none => .error (.conversionFailed p.name p.type)
    | some converted => (bindEach ps vs).map (.value converted :: ·)

/-- The arguments that the values make. Their number is checked before they are converted. -/
def bind (c : Command σ) (values : List Value) : Except Failure (List Argument) :=
  if values.length < c.requiredCount then
    .error (.tooFewForCommand c.name values.length c.requiredCount)
  else if c.params.length < values.length then
    .error (.tooManyForCommand c.name values.length c.params.length)
  else bindEach c.params values

/-- Runs the body on arguments that are bound already. -/
def perform (c : Command σ) (args : List Argument) (host : σ) : Except Failure Unit × σ :=
  match c.body args host with
  | (.ok (), host) => (.ok (), host)
  | (.error reason, host) => (.error (.commandFailed c.name reason), host)

/-- Binds the values and runs the body, which does not run if the values cannot be bound. -/
def invoke (c : Command σ) (values : List Value) (host : σ) : Except Failure Unit × σ :=
  match c.bind values with
  | .error f => (.error f, host)
  | .ok args => c.perform args host

/-! ## In the journal -/

def typeTag : ParameterType → String
  | .number => "Number"
  | .text => "Str"
  | .boolean => "Boolean"
  | .any => "Any"

def parameterSummary (p : CommandParameter) : String :=
  "CommandParam \x7b name: " ++ Value.journalQuote p.name ++ ", ty: " ++ typeTag p.type ++
    ", required: " ++ (if p.required then "true" else "false") ++ " \x7d"

/-- The name and the parameters of a command, for those who look for mistakes. -/
def summary (c : Command σ) : String :=
  "Command \x7b name: " ++ Value.journalQuote c.name ++ ", params: [" ++
    String.intercalate ", " (c.params.map parameterSummary) ++ "] \x7d"

/-! ## The `echo` command -/

/-- The command that writes its text and ends the line; `write` writes for the host. -/
def echo (write : String → σ → Except String Unit × σ) : Command σ where
  name := "echo"
  description := "prints the text"
  params := [⟨"text", .text, false⟩]
  body args := write (((args.head?.bind Argument.value?).map Value.toText).getD "" ++ "\n")

end Command

end CommandScript
