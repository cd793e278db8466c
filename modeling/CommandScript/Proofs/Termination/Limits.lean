import CommandScript.Session

/-!
Evaluation within limits. This evaluator walks a tree and enters bodies as they are found on the
stack; what makes it end is only that it gives up where one more evaluation of an expression would
be nested too deep, or where the stack would hold too many frames. It asks for the depth of the
stack when a call is made.
-/

namespace CommandScript
set_option autoImplicit false

variable {σ α : Type}

/-- How many evaluations of expressions may run inside each other, and how many frames the stack may
hold. -/
structure Limits where
  nesting : Nat
  frames : Nat

/-- An action that may be given up; then there is no answer at all. -/
abbrev LimitedAction (σ α : Type) := ExceptT RuntimeError (StateT (Machine σ) Option) α

namespace LimitedAction

/-- Does what an action does, and gives up if there are more than `frames` frames then. -/
def within (frames : Nat) (act : Action σ α) : LimitedAction σ α :=
  fun m => if (act m).2.depth ≤ frames then some (act m) else none

def fail (f : Failure) : LimitedAction σ α := fun m => some (.error (.ofFailure f), m)

/-- Goes on with the present depth of the stack. -/
def atDepth (act : Nat → LimitedAction σ α) : LimitedAction σ α := fun m => act m.depth m

def inNewFrame (frames : Nat) (act : LimitedAction σ α) : LimitedAction σ α := do
  within frames (Action.change Machine.push)
  fun m => (act m).map fun r => (r.1, r.2.pop)

end LimitedAction

namespace Limited

open LimitedAction

variable (commands : Registry σ) (frames : Nat)

/-! ## Statements, given how expressions are evaluated -/

section

variable (evaluate : Expr → LimitedAction σ Value)

def evaluateEach : List Expr → LimitedAction σ (List Value)
  | [] => pure []
  | e :: es => do
    let v ← evaluate e
    let vs ← evaluateEach es
    pure (v :: vs)

def execute (s : Statement) : LimitedAction σ Unit := do
  within frames (Action.change (Machine.note (.interpreting s)))
  match s with
  | .command _ name args =>
    match commands.find? name with
    | none => fail (.commandNotFound name)
    | some c =>
      let values ← evaluateEach evaluate args
      within frames (Action.change (Machine.note (.dispatched name values.length)))
      within frames (Action.invoke c values)
  | .expression _ e =>
    let _ ← evaluate e
    pure ()
  | .declaration _ name params body =>
    within frames (Action.change (Machine.declare ⟨name, params, body⟩))

def executeEach : List Statement → LimitedAction σ Unit
  | [], m => some (.ok (), m)
  | s :: ss, m =>
    match execute commands frames evaluate s m with
    | none => none
    | some (.ok (), m') => executeEach ss m'
    | some (.error e, m') => some (.error (e.atLine s.place.line), m')

/-- Runs statements in the innermost frame, a new one if there was none. -/
def executeAll (ss : List Statement) : LimitedAction σ Unit := do
  within frames (Action.change Machine.ensureRoot)
  executeEach commands frames evaluate ss

/-- Runs the body of a function in a new frame that knows the parameters. -/
def enter (f : Function) (values : List Value) : LimitedAction σ Unit := do
  within frames (Action.change (Machine.note (.called f)))
  inNewFrame frames do
    within frames (Action.change (setParameters f.params values))
    executeAll commands frames evaluate f.body

end

/-! ## Expressions -/

/-- The value of an expression; it and those that it needs are nested at most `n` deep. -/
def evaluate : Nat → Expr → LimitedAction σ Value
  | 0, _ => fun _ => none
  | n + 1, e =>
    match e with
    | .literal value => pure (.ofLiteral value)
    | .variable name => within frames (Action.get name)
    | .assign name value => do
      let v ← evaluate n value
      within frames (Action.change (Machine.set name v))
      pure v
    | .negate e => do
      match ← evaluate n e with
      | .boolean b => pure (.boolean !b)
      | v => fail (.cannotNegate v.type)
    | .binary left op right => do
      let l ← evaluate n left
      let r ← evaluate n right
      within frames (Action.ofExcept (op.apply l r))
    | .call name args => do
      match ← within frames (Action.function? name) with
      | none => fail (.functionNotFound name)
      | some f =>
        if args.length < f.arity then fail (.tooFewForFunction name args.length f.arity)
        else if f.arity < args.length then fail (.tooManyForFunction name args.length f.arity)
        else
          atDepth fun depth =>
            if maxCallDepth < depth then fail (.callTooDeep name)
            else do
              let values ← evaluateEach (evaluate n) args
              enter commands frames (evaluate n) f values
              pure .null

end Limited

/-! ## Runs and sessions -/

namespace Machine

variable (limits : Limits) (commands : Registry σ)

def evaluateWithin (e : Expr) : LimitedAction σ Value :=
  Limited.evaluate commands limits.frames limits.nesting e

def executeAllWithin (ss : List Statement) : LimitedAction σ Unit :=
  Limited.executeAll commands limits.frames (evaluateWithin limits commands) ss

def runWithin (ss : List Statement) : LimitedAction σ Unit :=
  LimitedAction.inNewFrame limits.frames (executeAllWithin limits commands ss)

end Machine

/-- A source, and whether it runs in a frame of its own or in that of the session. -/
inductive Input where
  | run (source : String)
  | feed (source : String)

namespace Input

def source : Input → String
  | .run source | .feed source => source

/-- How a script is run where the input asks for it. -/
def action (commands : Registry σ) : Input → Script → Action σ Unit
  | .run _ => Machine.run commands
  | .feed _ => Machine.executeAll commands

def actionWithin (limits : Limits) (commands : Registry σ) : Input → Script → LimitedAction σ Unit
  | .run _ => Machine.runWithin limits commands
  | .feed _ => Machine.executeAllWithin limits commands

end Input

namespace Session

def take (input : Input) (s : Session σ) : Except ScriptError Unit × Session σ :=
  match input with
  | .run source => s.run source
  | .feed source => s.feed source

/-- Takes inputs one after the other, whether those before have failed or not. -/
def takeEach : List Input → Session σ → List (Except ScriptError Unit) × Session σ
  | [], s => ([], s)
  | input :: inputs, s =>
    let r := s.take input
    let rest := takeEach inputs r.2
    (r.1 :: rest.1, rest.2)

def takeWithin (limits : Limits) (input : Input) (s : Session σ) :
    Option (Except ScriptError Unit × Session σ) :=
  match s.read input.source with
  | (.error e, s) => some (.error (.parse e), s)
  | (.ok script, s) =>
    (input.actionWithin limits s.commands script s.machine).map fun r =>
      (r.1.mapError .runtime, { s with machine := r.2 })

def takeEachWithin (limits : Limits) :
    List Input → Session σ → Option (List (Except ScriptError Unit) × Session σ)
  | [], s => some ([], s)
  | input :: inputs, s => do
    let r ← s.takeWithin limits input
    let rest ← takeEachWithin limits inputs r.2
    pure (r.1 :: rest.1, rest.2)

end Session

end CommandScript
