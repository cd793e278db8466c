import CommandScript.Arithmetic
import CommandScript.Command.Registry
import CommandScript.Machine.Basic

/-!
Evaluation. Expressions are evaluated from left to right, statements one after the other. A function
sees the frames of whoever calls it, below a frame of its own. How a function is entered is given to
the evaluation of an expression from outside, for as many levels as the frame stack may still grow.
-/

namespace CommandScript
set_option autoImplicit false

variable {σ : Type}

/-- A way to run a function with the values of its parameters. -/
abbrev Entry (σ : Type) := Function → List Value → Action σ Unit

/-! ## Expressions -/

namespace Expr

mutual

/-- The value of an expression. There is no entry if the frame stack may not grow. -/
def evaluate (entry : Option (Entry σ)) : Expr → Action σ Value
  | .literal value => pure (.ofLiteral value)
  | .variable name => Action.get name
  | .assign name value => do
    let v ← value.evaluate entry
    Action.change (Machine.set name v)
    pure v
  | .negate e => do
    match ← e.evaluate entry with
    | .boolean b => pure (.boolean !b)
    | v => Action.fail (.cannotNegate v.type)
  | .binary left op right => do
    let l ← left.evaluate entry
    let r ← right.evaluate entry
    Action.ofExcept (op.apply l r)
  | .call name args => do
    match ← Action.function? name with
    | none => Action.fail (.functionNotFound name)
    | some f =>
      if args.length < f.arity then
        Action.fail (.tooFewForFunction name args.length f.arity)
      else if f.arity < args.length then
        Action.fail (.tooManyForFunction name args.length f.arity)
      else
        match entry with
        | none => Action.fail (.callTooDeep name)
        | some enter => do
          let values ← evaluateAll entry args
          enter f values
          pure .null

/-- The values of the expressions in a list, from left to right. -/
def evaluateAll (entry : Option (Entry σ)) : List Expr → Action σ (List Value)
  | [] => pure []
  | e :: es => do
    let v ← e.evaluate entry
    let vs ← evaluateAll entry es
    pure (v :: vs)

end

end Expr

/-! ## Statements -/

namespace Statement

/-- Runs one statement. -/
def execute (commands : Registry σ) (entry : Option (Entry σ)) (s : Statement) : Action σ Unit := do
  Action.change (Machine.note (.interpreting s))
  match s with
  | .command _ name args =>
    match commands.find? name with
    | none => Action.fail (.commandNotFound name)
    | some c =>
      let values ← Expr.evaluateAll entry args
      Action.change (Machine.note (.dispatched name values.length))
      Action.invoke c values
  | .expression _ e =>
    let _ ← e.evaluate entry
    pure ()
  | .declaration _ name params body => Action.change (Machine.declare ⟨name, params, body⟩)

/-- Runs statements until one fails; the error learns the line of that one. -/
def executeEach (commands : Registry σ) (entry : Option (Entry σ)) :
    List Statement → Action σ Unit
  | [], m => (.ok (), m)
  | s :: ss, m =>
    match s.execute commands entry m with
    | (.ok (), m') => executeEach commands entry ss m'
    | (.error e, m') => (.error (e.atLine s.place.line), m')

end Statement

/-! ## Calls -/

/-- Sets the parameters to the values, in order. -/
def setParameters (params : List Parameter) (values : List Value) (m : Machine σ) : Machine σ :=
  (params.zip values).foldl (fun m pv => m.set pv.1.name pv.2) m

/-- How functions are entered where the frame stack may grow by `n` frames. -/
def entryWithin (commands : Registry σ) : Nat → Option (Entry σ)
  | 0 => none
  | n + 1 => some fun f values => do
    Action.change (Machine.note (.called f))
    Action.inNewFrame do
      Action.change (setParameters f.params values)
      Statement.executeEach commands (entryWithin commands n) f.body

/-- How functions are entered from a machine: its stack may grow while it is not deeper than the
limit. -/
def Machine.entry (commands : Registry σ) (m : Machine σ) : Option (Entry σ) :=
  entryWithin commands (maxCallDepth + 1 - m.depth)

/-! ## Runs -/

namespace Machine

/-- The value of an expression, evaluated where the machine stands. -/
def evaluate (commands : Registry σ) (e : Expr) : Action σ Value :=
  fun m => e.evaluate (m.entry commands) m

/-- Runs one statement where the machine stands. -/
def execute (commands : Registry σ) (s : Statement) : Action σ Unit :=
  fun m => s.execute commands (m.entry commands) m

/-- Runs statements in the innermost frame, a new one if there was none. -/
def executeAll (commands : Registry σ) (ss : List Statement) : Action σ Unit :=
  fun m => Statement.executeEach commands (m.ensureRoot.entry commands) ss m.ensureRoot

/-- Runs statements in a frame of their own. -/
def run (commands : Registry σ) (ss : List Statement) : Action σ Unit :=
  Action.inNewFrame (executeAll commands ss)

end Machine

end CommandScript
