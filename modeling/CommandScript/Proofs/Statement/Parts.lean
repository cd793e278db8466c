import CommandScript.Statement.Basic

/-!
The parts of scripts. An expression has itself and every expression inside it as parts, and a statement
itself and every statement inside it, each before what is inside it and in the order of the text.
-/

namespace CommandScript
set_option autoImplicit false

/-! ## Parts of expressions -/

namespace Expr

mutual

/-- The expression and all expressions inside it. -/
def parts : Expr → List Expr
  | .literal value => [.literal value]
  | .variable name => [.variable name]
  | .assign name value => .assign name value :: value.parts
  | .negate e => .negate e :: e.parts
  | .binary left op right => .binary left op right :: (left.parts ++ right.parts)
  | .call name args => .call name args :: partsOfAll args

def partsOfAll : List Expr → List Expr
  | [] => []
  | e :: es => e.parts ++ partsOfAll es

end

theorem mem_partsOfAll_iff {es : List Expr} {part : Expr} :
    part ∈ partsOfAll es ↔ ∃ e ∈ es, part ∈ e.parts := by
  induction es with
  | nil => simp [partsOfAll]
  | cons e es ih => simp only [partsOfAll, List.mem_append, ih, List.mem_cons, exists_eq_or_imp]

end Expr

/-! ## Parts of statements -/

namespace Statement

def isDeclaration : Statement → Bool
  | .declaration .. => true
  | _ => false

/-- The expressions that stand in the statement itself. -/
def expressions : Statement → List Expr
  | .command _ _ args => args
  | .expression _ e => [e]
  | .declaration _ _ _ _ => []

/-- The statements of a declared function. -/
def body : Statement → List Statement
  | .declaration _ _ _ body => body
  | .command _ _ _ | .expression _ _ => []

mutual

/-- The statement and all statements inside it. -/
def parts : Statement → List Statement
  | .command place name args => [.command place name args]
  | .expression place e => [.expression place e]
  | .declaration place name params body => .declaration place name params body :: partsOfAll body

def partsOfAll : List Statement → List Statement
  | [] => []
  | s :: ss => s.parts ++ partsOfAll ss

end

variable {P : Statement → Prop}

mutual

/-- What goes over from declarations to their bodies holds of all statements inside. -/
theorem forall_mem_parts (hbody : ∀ s, P s → ∀ t ∈ s.body, P t) (s : Statement) (h : P s) :
    ∀ t ∈ s.parts, P t := by
  unfold parts
  cases s with
  | command => exact List.forall_mem_singleton.mpr h
  | expression => exact List.forall_mem_singleton.mpr h
  | declaration place name params body =>
    exact List.forall_mem_cons.mpr ⟨h, forall_mem_partsOfAll hbody body (hbody _ h)⟩

theorem forall_mem_partsOfAll (hbody : ∀ s, P s → ∀ t ∈ s.body, P t) (ss : List Statement)
    (h : ∀ s ∈ ss, P s) : ∀ t ∈ partsOfAll ss, P t := by
  unfold partsOfAll
  cases ss with
  | nil => exact nofun
  | cons s ss =>
    rw [List.forall_mem_cons] at h
    exact List.forall_mem_append.mpr
      ⟨forall_mem_parts hbody s h.1, forall_mem_partsOfAll hbody ss h.2⟩

end

end Statement

/-- The statements of a script, those in the bodies of functions among them. -/
def Script.statements (script : Script) : List Statement := Statement.partsOfAll script

end CommandScript
