import CommandScript.Statement.Basic

/-! Equality of expressions and of statements can be decided, node by node. -/

namespace CommandScript
set_option autoImplicit false

namespace Expr

mutual

/-- Whether two expressions are the same, compared from their roots. -/
def same : Expr → Expr → Bool
  | .literal value, .literal value' => value = value'
  | .variable name, .variable name' => name = name'
  | .assign name value, .assign name' value' => name = name' && value.same value'
  | .negate e, .negate e' => e.same e'
  | .binary left op right, .binary left' op' right' =>
    op = op' && left.same left' && right.same right'
  | .call name args, .call name' args' => name = name' && sameAll args args'
  | _, _ => false

def sameAll : List Expr → List Expr → Bool
  | [], [] => true
  | e :: es, e' :: es' => e.same e' && sameAll es es'
  | _, _ => false

end

mutual

theorem same_iff : ∀ e e' : Expr, e.same e' = true ↔ e = e'
  | .literal value, e' => by cases e' <;> simp [same]
  | .variable name, e' => by cases e' <;> simp [same]
  | .assign name value, e' => by cases e' <;> simp [same, same_iff value]
  | .negate e, e' => by cases e' <;> simp [same, same_iff e]
  | .binary left op right, e' => by
    cases e' <;> simp [same, same_iff left, same_iff right, and_left_comm, and_assoc]
  | .call name args, e' => by cases e' <;> simp [same, sameAll_iff args]

theorem sameAll_iff : ∀ es es' : List Expr, sameAll es es' = true ↔ es = es'
  | [], es' => by cases es' <;> simp [sameAll]
  | e :: es, es' => by cases es' <;> simp [sameAll, same_iff e, sameAll_iff es]

end

instance : DecidableEq Expr := fun e e' => decidable_of_iff _ (same_iff e e')

end Expr

namespace Statement

mutual

/-- Whether two statements are the same, with their places. -/
def same : Statement → Statement → Bool
  | .command place name args, .command place' name' args' =>
    place = place' && name = name' && args = args'
  | .expression place e, .expression place' e' => place = place' && e = e'
  | .declaration place name params body, .declaration place' name' params' body' =>
    place = place' && name = name' && params = params' && sameAll body body'
  | _, _ => false

def sameAll : List Statement → List Statement → Bool
  | [], [] => true
  | s :: ss, s' :: ss' => s.same s' && sameAll ss ss'
  | _, _ => false

end

mutual

theorem same_iff : ∀ s s' : Statement, s.same s' = true ↔ s = s'
  | .command place name args, s' => by cases s' <;> simp [same, and_assoc]
  | .expression place e, s' => by cases s' <;> simp [same]
  | .declaration place name params body, s' => by
    cases s' <;> simp [same, sameAll_iff body, and_assoc]

theorem sameAll_iff : ∀ ss ss' : List Statement, sameAll ss ss' = true ↔ ss = ss'
  | [], ss' => by cases ss' <;> simp [sameAll]
  | s :: ss, ss' => by cases ss' <;> simp [sameAll, same_iff s, sameAll_iff ss]

end

instance : DecidableEq Statement := fun s s' => decidable_of_iff _ (same_iff s s')

end Statement

end CommandScript
