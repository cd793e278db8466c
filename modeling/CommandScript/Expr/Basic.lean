import CommandScript.Number.Basic
import CommandScript.Operator
import CommandScript.Text.Quoted

/-!
Expressions: their trees, how deep they are, and their text. The text of an expression puts
brackets around all that has parts, so that it shows the tree.
-/

namespace CommandScript
set_option autoImplicit false

inductive Literal where
  | number (x : Float)
  | text (s : String)
  | boolean (b : Bool)
  deriving DecidableEq

inductive Expr where
  | literal (value : Literal)
  | variable (name : String)
  | assign (name : String) (value : Expr)
  | negate (e : Expr)
  | binary (left : Expr) (op : Operator) (right : Expr)
  | call (name : String) (args : List Expr)

def Literal.source : Literal → String
  | .number x => Number.text x
  | .text s => Text.quote s
  | .boolean b => if b then "true" else "false"

namespace Expr

/-! ## Depth -/

mutual

/-- The number of nodes on the longest way from the root to a leaf. -/
def depth : Expr → Nat
  | .literal _ | .variable _ => 1
  | .assign _ value => value.depth + 1
  | .negate e => e.depth + 1
  | .binary left _ right => max left.depth right.depth + 1
  | .call _ args => depthOfAll args + 1

/-- The greatest depth in a list, zero if it is empty. -/
def depthOfAll : List Expr → Nat
  | [] => 0
  | e :: es => max e.depth (depthOfAll es)

end

theorem depthOfAll_le_iff {es : List Expr} {n : Nat} :
    depthOfAll es ≤ n ↔ ∀ e ∈ es, e.depth ≤ n := by
  induction es with
  | nil => simp [depthOfAll]
  | cons e es ih => rw [depthOfAll, Nat.max_le, ih, List.forall_mem_cons]

theorem depth_pos (e : Expr) : 0 < e.depth := by
  cases e <;> simp [depth]

/-! ## Text -/

mutual

/-- The expression as it stands inside another one or among arguments. -/
def source : Expr → String
  | .literal value => value.source
  | .variable name => "$" ++ name
  | .assign name value => "($" ++ name ++ " = " ++ value.source ++ ")"
  | .negate e => "(!" ++ e.source ++ ")"
  | .binary left op right => "(" ++ left.source ++ " " ++ op.sign ++ " " ++ right.source ++ ")"
  | .call name args => "(!" ++ name ++ sourceOfAll args ++ ")"

/-- Each expression of the list behind a blank. -/
def sourceOfAll : List Expr → String
  | [] => ""
  | e :: es => " " ++ e.source ++ sourceOfAll es

end

/-- The expression as a statement; an assignment or a call needs no brackets there. -/
def bareSource : Expr → String
  | .assign name value => "$" ++ name ++ " = " ++ value.source
  | .call name args => "!" ++ name ++ sourceOfAll args
  | e => e.source

end Expr

end CommandScript
