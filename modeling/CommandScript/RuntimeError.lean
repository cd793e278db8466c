import CommandScript.Command.Parameter

/-!
Why the run of a script ends early, and how that is told. An error knows the line of every statement
that it ended, the innermost first.
-/

namespace CommandScript
set_option autoImplicit false

/-- The greatest depth of the frame stack at which a function can still be called. -/
def maxCallDepth : Nat := 128

/-- The greatest length, in bytes, of a repeated string. -/
def maxRepeatedBytes : Nat := 16777216

inductive Failure where
  | commandNotFound (name : String)
  | functionNotFound (name : String)
  | tooFewForCommand (name : String) (supplied required : Nat)
  | tooManyForCommand (name : String) (supplied accepted : Nat)
  | tooFewForFunction (name : String) (supplied expected : Nat)
  | tooManyForFunction (name : String) (supplied expected : Nat)
  | invalidOperator (op : Operator) (left right : ValueType)
  | cannotNegate (type : ValueType)
  | conversionFailed (parameter : String) (type : ParameterType)
  | callTooDeep (name : String)
  | repeatTooLarge (bytes : Nat) (count : Float)
  | commandFailed (name reason : String)
  deriving DecidableEq

namespace Failure

def message : Failure → String
  | commandNotFound _ => "command not found"
  | functionNotFound _ => "function not found"
  | tooFewForCommand _ _ _ | tooFewForFunction _ _ _ => "too few arguments"
  | tooManyForCommand _ _ _ | tooManyForFunction _ _ _ => "too many arguments"
  | invalidOperator _ _ _ => "invalid operator"
  | cannotNegate _ => "cannot negate"
  | conversionFailed _ _ => "cannot convert"
  | callTooDeep _ => "call stack too deep"
  | repeatTooLarge _ _ => "string repetition too large"
  | commandFailed _ _ => "command failed"

/-- A name as the details of a failure show it. -/
def ticked (name : String) : String := "`" ++ name ++ "`"

def detail : Failure → String
  | commandNotFound name | functionNotFound name => ticked name
  | tooFewForCommand name supplied required =>
    "for " ++ ticked name ++ s!": {supplied} supplied, {required} required"
  | tooManyForCommand name supplied accepted =>
    "for " ++ ticked name ++ s!": {supplied} supplied, at most {accepted} accepted"
  | tooFewForFunction name supplied expected | tooManyForFunction name supplied expected =>
    "for " ++ ticked name ++ s!": {supplied} supplied, expected {expected}"
  | invalidOperator op left right =>
    ticked op.sign ++ " between " ++ left.name ++ " and " ++ right.name
  | cannotNegate type => "a " ++ type.name
  | conversionFailed parameter type => "argument " ++ ticked parameter ++ " to " ++ type.name
  | callTooDeep name => "calling " ++ ticked name ++ s!", limit is {maxCallDepth}"
  | repeatTooLarge bytes count =>
    s!"{bytes} bytes times " ++ Number.text count ++ s!", limit is {maxRepeatedBytes}"
  | commandFailed name reason => ticked name ++ ": " ++ reason

end Failure

structure RuntimeError where
  failure : Failure
  trace : List Nat
  deriving DecidableEq

namespace RuntimeError

/-- A failure that has not ended a statement yet. -/
def ofFailure (failure : Failure) : RuntimeError := ⟨failure, []⟩

/-- The error after it ended a statement on the given line. -/
def atLine (line : Nat) (e : RuntimeError) : RuntimeError := { e with trace := e.trace ++ [line] }

def message (e : RuntimeError) : String :=
  "Runtime error: " ++ e.failure.message ++ " " ++ e.failure.detail ++
    String.join (e.trace.map fun line => s!" at line {line}")

end RuntimeError

end CommandScript
