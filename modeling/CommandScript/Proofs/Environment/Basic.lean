import CommandScript.Machine.Evaluate
import CommandScript.Proofs.Machine.Invocations

/-!
Evaluation in environments. An environment says for every name at once what variable and what
function it means; there are no frames. A call is evaluated in a copy of the environment of its
caller that knows the parameters too, and the copy is thrown away afterwards. How deep calls are
nested is counted by a number that is handed on.
-/

namespace CommandScript
set_option autoImplicit false

/-- What every name means, as a variable and as a function. -/
@[ext] structure Environment where
  values : String → Value
  functions : String → Option Function

namespace Environment

def set (env : Environment) (name : String) (v : Value) : Environment :=
  { env with values := fun x => if name = x then v else env.values x }

def declare (env : Environment) (f : Function) : Environment :=
  { env with functions := fun x => if f.name = x then some f else env.functions x }

/-- The environment in which the parameters have the values; of two parameters of one name the
later one counts. -/
def bindParameters (env : Environment) (params : List Parameter) (values : List Value) :
    Environment :=
  (params.zip values).foldl (fun env pv => env.set pv.1.name pv.2) env

end Environment

/-- An environment, the state of the host, and the commands that ran so far, the latest first. -/
structure World (σ : Type) where
  env : Environment
  host : σ
  invocations : List CommandCall

namespace World

variable {σ : Type}

/-- Binds the values and runs the body of a command. -/
def invoke (c : Command σ) (values : List Value) (w : World σ) :
    Except RuntimeError Unit × World σ :=
  match c.bind values with
  | .error f => (.error (.ofFailure f), w)
  | .ok args =>
    let r := c.perform args w.host
    (r.1.mapError RuntimeError.ofFailure,
      { w with host := r.2, invocations := ⟨c.name, args⟩ :: w.invocations })

/-- Goes on from a value, unless there is an error in its place. -/
def andThen {α β : Type} (q : Except RuntimeError α × World σ)
    (next : α → World σ → Except RuntimeError β × World σ) : Except RuntimeError β × World σ :=
  match q with
  | (.error e, w) => (.error e, w)
  | (.ok a, w) => next a w

mutual

/-- The value of an expression at the given depth of calls. -/
def evaluate (commands : Registry σ) (depth : Nat) (e : Expr) (w : World σ) :
    Except RuntimeError Value × World σ :=
  match e with
  | .literal value => (.ok (.ofLiteral value), w)
  | .variable name => (.ok (w.env.values name), w)
  | .assign name value =>
    andThen (evaluate commands depth value w) fun v w =>
      (.ok v, { w with env := w.env.set name v })
  | .negate e =>
    andThen (evaluate commands depth e w) fun v w =>
      match v with
      | .boolean b => (.ok (.boolean !b), w)
      | v => (.error (.ofFailure (.cannotNegate v.type)), w)
  | .binary left op right =>
    andThen (evaluate commands depth left w) fun l w =>
      andThen (evaluate commands depth right w) fun r w =>
        ((op.apply l r).mapError RuntimeError.ofFailure, w)
  | .call name args =>
    match w.env.functions name with
    | none => (.error (.ofFailure (.functionNotFound name)), w)
    | some f =>
      if args.length < f.arity then
        (.error (.ofFailure (.tooFewForFunction name args.length f.arity)), w)
      else if f.arity < args.length then
        (.error (.ofFailure (.tooManyForFunction name args.length f.arity)), w)
      else if maxCallDepth < depth then (.error (.ofFailure (.callTooDeep name)), w)
      else
        andThen (evaluateAll commands depth args w) fun values w =>
          let copy := { w with env := w.env.bindParameters f.params values }
          let r := executeEach commands (depth + 1) f.body copy
          (r.1.map fun _ => .null, { r.2 with env := w.env })
termination_by (maxCallDepth + 1 - depth, sizeOf e)

/-- The values of the expressions in a list, from left to right. -/
def evaluateAll (commands : Registry σ) (depth : Nat) (es : List Expr) (w : World σ) :
    Except RuntimeError (List Value) × World σ :=
  match es with
  | [] => (.ok [], w)
  | e :: es =>
    andThen (evaluate commands depth e w) fun v w =>
      andThen (evaluateAll commands depth es w) fun vs w => (.ok (v :: vs), w)
termination_by (maxCallDepth + 1 - depth, sizeOf es)

def execute (commands : Registry σ) (depth : Nat) (s : Statement) (w : World σ) :
    Except RuntimeError Unit × World σ :=
  match s with
  | .command _ name args =>
    match commands.find? name with
    | none => (.error (.ofFailure (.commandNotFound name)), w)
    | some c => andThen (evaluateAll commands depth args w) fun values w => w.invoke c values
  | .expression _ e => andThen (evaluate commands depth e w) fun _ w => (.ok (), w)
  | .declaration _ name params body =>
    (.ok (), { w with env := w.env.declare ⟨name, params, body⟩ })
termination_by (maxCallDepth + 1 - depth, sizeOf s)

/-- Runs statements until one fails; the error learns the line of that one. -/
def executeEach (commands : Registry σ) (depth : Nat) (ss : List Statement) (w : World σ) :
    Except RuntimeError Unit × World σ :=
  match ss with
  | [] => (.ok (), w)
  | s :: ss =>
    match execute commands depth s w with
    | (.ok (), w) => executeEach commands depth ss w
    | (.error e, w) => (.error (e.atLine s.place.line), w)
termination_by (maxCallDepth + 1 - depth, sizeOf ss)

end

end World

end CommandScript
