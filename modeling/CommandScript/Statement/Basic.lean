import CommandScript.Expr.Basic
import CommandScript.Location

/-!
Statements and scripts. A statement is a command, an expression, or the declaration of a function,
whose body is a list of statements again.
-/

namespace CommandScript
set_option autoImplicit false

/-- A declared parameter. Its type is a name that nothing checks. -/
structure Parameter where
  type : String
  name : String
  deriving DecidableEq

def Parameter.source (p : Parameter) : String := p.type ++ " " ++ p.name

/-- The head of a declaration. -/
def signature (name : String) (params : List Parameter) : String :=
  "function " ++ name ++ "(" ++ String.intercalate ", " (params.map Parameter.source) ++ ")"

/-- Each statement knows the place of its first lexeme. -/
inductive Statement where
  | command (place : Location) (name : String) (args : List Expr)
  | expression (place : Location) (e : Expr)
  | declaration (place : Location) (name : String) (params : List Parameter)
      (body : List Statement)

abbrev Script := List Statement

namespace Statement

def place : Statement → Location
  | .command p _ _ | .expression p _ | .declaration p _ _ _ => p

mutual

def source : Statement → String
  | .command _ name args => name ++ Expr.sourceOfAll args
  | .expression _ e => e.bareSource
  | .declaration _ name params body => signature name params ++ " \x7b\n" ++ sourceOfBody body ++ "\x7d"

/-- Each statement indented, on a line that it ends. -/
def sourceOfBody : List Statement → String
  | [] => ""
  | s :: ss => "    " ++ s.source ++ "\n" ++ sourceOfBody ss

end

end Statement

/-- The statements of a script, one below the other. -/
def Script.source (script : Script) : String :=
  String.intercalate "\n" (script.map Statement.source)

end CommandScript
