import CommandScript.Lexeme.Kind

/-! The four binary operators and how tightly they bind. -/

namespace CommandScript
set_option autoImplicit false

inductive Operator where
  | add
  | subtract
  | multiply
  | divide
  deriving DecidableEq

namespace Operator

def ofKind? : LexemeKind → Option Operator
  | .plus => some add
  | .minus => some subtract
  | .asterisk => some multiply
  | .slash => some divide
  | _ => none

def sign : Operator → String
  | add => "+"
  | subtract => "-"
  | multiply => "*"
  | divide => "/"

/-- How tightly an operator binds; operators of one tier are applied from left to right. -/
def tier : Operator → Nat
  | add | subtract => 0
  | multiply | divide => 1

/-- The tiers, the tightest first. -/
def tiers : List Nat := [1, 0]

end Operator

end CommandScript
