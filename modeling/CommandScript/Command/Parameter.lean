import CommandScript.Value

/-! The parameters of commands, and how values become arguments for them. -/

namespace CommandScript
set_option autoImplicit false

inductive ParameterType where
  | number
  | text
  | boolean
  | any
  deriving DecidableEq

namespace ParameterType

def name : ParameterType → String
  | number => "number"
  | text => "string"
  | boolean => "boolean"
  | any => "any"

/-- The truth value that a text names, in any case and with white space around it. -/
def boolean? (s : String) : Option Bool :=
  let word := String.ofList ((Text.trim s.toList).map Char.toLower)
  if word = "true" then some true else if word = "false" then some false else none

/-- The value as one of the type, if it can be one. Every value has a text, and null has nothing
else. -/
def convert? : ParameterType → Value → Option Value
  | any, v => some v
  | text, v => some (.text v.toText)
  | number, .number x => some (.number x)
  | number, .text s => (Number.ofText? s).map .number
  | number, .boolean b => some (.number (if b then 1 else 0))
  | number, .null => none
  | boolean, .boolean b => some (.boolean b)
  | boolean, .text s => (boolean? s).map .boolean
  | boolean, .number x => some (.boolean (!(x == 0)))
  | boolean, .null => none

end ParameterType

/-- A parameter of a command. Those that are required count for the fewest values that it takes. -/
structure CommandParameter where
  name : String
  type : ParameterType
  required : Bool
  deriving DecidableEq

/-- The parameter in the usage of its command. -/
def CommandParameter.usage (p : CommandParameter) : String :=
  let inner := p.name ++ ": " ++ p.type.name
  if p.required then "<" ++ inner ++ ">" else "[" ++ inner ++ "]"

/-- What a command receives for a parameter. A null that was given is not a missing value. -/
inductive Argument where
  | value (v : Value)
  | missing
  deriving DecidableEq

def Argument.journalText : Argument → String
  | value v => "Value(" ++ v.journalText ++ ")"
  | missing => "Missing"

def Argument.value? : Argument → Option Value
  | value v => some v
  | missing => none

end CommandScript
