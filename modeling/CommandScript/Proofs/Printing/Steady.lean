import CommandScript.Proofs.Printing.Fronts

/-!
Steady scripts. An argument is printed behind a blank only, so a number with a minus sign is
subtracted from the argument before it; and a number without digits is printed as a name, so that
the negation of one becomes a call. In a steady script neither comes up. It may still be printed as
a text that cannot be parsed.
-/

namespace CommandScript
set_option autoImplicit false

open Float.Model.UnpackedFloat (Sign)

instance decidableEqSign : DecidableEq Sign
  | .positive, .positive | .negative, .negative => isTrue rfl
  | .positive, .negative | .negative, .positive => isFalse Sign.noConfusion

/-! ## Numbers -/

/-- A finite number with a minus sign, which is subtracted from an argument before it. -/
def Expr.IsSubtracted : Expr → Prop
  | .literal (.number x) => x.isFinite ∧ Double.sign x = .negative
  | _ => False

/-- A number that is printed as a name, which is called behind an exclamation mark. -/
def Expr.IsNamed : Expr → Prop
  | .literal (.number x) => x.isFinite = false ∧ Double.sign x = .positive
  | _ => False

/-- A number that is printed as a minus sign and a name, where no operand begins. -/
def Expr.IsLowest : Expr → Prop
  | .literal (.number x) => x.isFinite = false ∧ Double.sign x = .negative
  | _ => False

instance : DecidablePred Expr.IsSubtracted
  | .literal (.number x) => inferInstanceAs (Decidable (x.isFinite ∧ Double.sign x = .negative))
  | .literal (.text _) | .literal (.boolean _) | .variable _ | .assign _ _ | .negate _
  | .binary _ _ _ | .call _ _ => inferInstanceAs (Decidable False)

instance : DecidablePred Expr.IsNamed
  | .literal (.number x) =>
    inferInstanceAs (Decidable (x.isFinite = false ∧ Double.sign x = .positive))
  | .literal (.text _) | .literal (.boolean _) | .variable _ | .assign _ _ | .negate _
  | .binary _ _ _ | .call _ _ => inferInstanceAs (Decidable False)

/-! ## Trees -/

inductive Expr.Steady : Expr → Prop where
  | literal {value : Literal} : Steady (.literal value)
  | variable {name : String} : Steady (.variable name)
  | assign {name : String} {value : Expr} : Steady value → Steady (.assign name value)
  | negate {e : Expr} : Steady e → ¬ e.IsNamed → Steady (.negate e)
  | binary {left right : Expr} {op : Operator} :
      Steady left → Steady right → Steady (.binary left op right)
  | call {name : String} {args : List Expr} :
      (∀ e ∈ args, Steady e) → (∀ e ∈ args.tail, ¬ e.IsSubtracted) → Steady (.call name args)

inductive Statement.Steady : Statement → Prop where
  | command {place : Location} {name : String} {args : List Expr} :
      (∀ e ∈ args, e.Steady) → (∀ e ∈ args.tail, ¬ e.IsSubtracted) →
        Steady (.command place name args)
  | expression {place : Location} {e : Expr} : e.Steady → Steady (.expression place e)
  | declaration {place : Location} {name : String} {params : List Parameter}
      {body : List Statement} :
      (∀ s ∈ body, Steady s) → Steady (.declaration place name params body)

def Script.Steady (script : Script) : Prop := ∀ s ∈ script, s.Steady

mutual

def Expr.decidableSteady : (e : Expr) → Decidable e.Steady
  | .literal _ => isTrue .literal
  | .variable _ => isTrue .variable
  | .assign _ value =>
    let _ := value.decidableSteady
    decidable_of_iff value.Steady ⟨.assign, fun | .assign h => h⟩
  | .negate e =>
    let _ := e.decidableSteady
    decidable_of_iff (e.Steady ∧ ¬ e.IsNamed) ⟨fun h => .negate h.1 h.2, fun | .negate h hn => ⟨h, hn⟩⟩
  | .binary left _ right =>
    let _ := left.decidableSteady
    let _ := right.decidableSteady
    decidable_of_iff (left.Steady ∧ right.Steady)
      ⟨fun h => .binary h.1 h.2, fun | .binary hl hr => ⟨hl, hr⟩⟩
  | .call _ args =>
    let _ := Expr.decidableSteadyAll args
    decidable_of_iff ((∀ e ∈ args, e.Steady) ∧ ∀ e ∈ args.tail, ¬ e.IsSubtracted)
      ⟨fun h => .call h.1 h.2, fun | .call h hm => ⟨h, hm⟩⟩

def Expr.decidableSteadyAll : (es : List Expr) → Decidable (∀ e ∈ es, e.Steady)
  | [] => isTrue nofun
  | e :: es =>
    let _ := e.decidableSteady
    let _ := Expr.decidableSteadyAll es
    decidable_of_iff (e.Steady ∧ ∀ e ∈ es, e.Steady) List.forall_mem_cons.symm

end

instance : DecidablePred Expr.Steady := Expr.decidableSteady

mutual

def Statement.decidableSteady : (s : Statement) → Decidable s.Steady
  | .command _ _ args =>
    decidable_of_iff ((∀ e ∈ args, e.Steady) ∧ ∀ e ∈ args.tail, ¬ e.IsSubtracted)
      ⟨fun h => .command h.1 h.2, fun | .command h hm => ⟨h, hm⟩⟩
  | .expression _ e => decidable_of_iff e.Steady ⟨.expression, fun | .expression h => h⟩
  | .declaration _ _ _ body =>
    let _ := Statement.decidableSteadyAll body
    decidable_of_iff (∀ s ∈ body, s.Steady) ⟨.declaration, fun | .declaration h => h⟩

def Statement.decidableSteadyAll : (ss : List Statement) → Decidable (∀ s ∈ ss, s.Steady)
  | [] => isTrue nofun
  | s :: ss =>
    let _ := s.decidableSteady
    let _ := Statement.decidableSteadyAll ss
    decidable_of_iff (s.Steady ∧ ∀ s ∈ ss, s.Steady) List.forall_mem_cons.symm

end

instance (script : Script) : Decidable script.Steady := Statement.decidableSteadyAll script

end CommandScript
