import CommandScript.Expr.Basic

/-!
Operator chains: operands and operators in a row, and the tree they stand for. The operators of the
tightest tier are applied first, from left to right, then those of the next one.
-/

namespace CommandScript
set_option autoImplicit false

inductive Link where
  | operand (e : Expr)
  | operator (op : Operator)

namespace Chain

/-- Applies the operators of one tier from left to right. The links that were passed already are
given last first. There is no answer if such an operator does not stand between two operands. -/
def applyTier (tier : Nat) (passed : List Link) : List Link → Option (List Link)
  | [] => some passed.reverse
  | .operand e :: rest => applyTier tier (.operand e :: passed) rest
  | .operator op :: rest =>
    if op.tier = tier then
      match passed, rest with
      | .operand left :: before, .operand right :: behind =>
        applyTier tier (.operand (.binary left op right) :: before) behind
      | _, _ => none
    else applyTier tier (.operator op :: passed) rest

/-- The tree of a chain, if each of its operators stands between two operands and no two operands
follow each other. -/
def resolve (chain : List Link) : Option Expr :=
  match Operator.tiers.foldlM (fun links tier => applyTier tier [] links) chain with
  | some [.operand e] => some e
  | _ => none

@[simp] theorem resolve_operand (e : Expr) : resolve [.operand e] = some e := rfl

end Chain

end CommandScript
