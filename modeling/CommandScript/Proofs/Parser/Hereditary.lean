import CommandScript.Proofs.Expr.Precedence
import CommandScript.Proofs.Parser.Alongside
import CommandScript.Proofs.Parser.Depth

/-!
Properties that parsers inherit from the parsers of which they are made. If a property is hereditary, all
productions of a script have it. The links that are read for an expression are always those of a row, so
the one fault for which a hereditary property need not hold is that of an invalid chain of operators.
-/

namespace CommandScript
namespace Parser
set_option autoImplicit false

variable {α β : Type}

/-- What goes over to a parser from its parts: from moves of the cursor that leave the marks alone, from
parsers one after the other, from attempts and loops. -/
structure Hereditary (P : ∀ α : Type, Parser α → Prop) : Prop where
  move : ∀ {α : Type} (go : Cursor → α × Cursor),
    (∀ c, (go c).2.checkpoints = c.checkpoints) → P α fun c => .ok (go c)
  fail : ∀ {α : Type} (fault : SyntaxFault) (l : Lexeme), fault ≠ .invalidOperatorChain →
    P α (fail fault l)
  bind : ∀ {α β : Type} {p : Parser α} {f : α → Parser β} {answers : α → Prop}, P α p →
    Gives p answers → (∀ a, answers a → P β (f a)) → P β (p >>= f)
  attempt : ∀ {α : Type} {p : Parser (Option α)}, P _ p → P _ (attempt p)
  many : ∀ {α : Type} {step : Parser (Option α)}, P _ step → P _ (many step)

/-! ## The links of an expression -/

theorem gives_linksFrom (operand : Parser (Option Expr)) (n : Nat) {links : List Link}
    (hlinks : Chain.IsRow links.reverse) : Gives (linksFrom operand n links) Chain.IsRow := by
  induction n generalizing links with
  | zero =>
    unfold linksFrom
    refine gives_after fun o => ?_
    cases o with
    | none => exact gives_pure hlinks
    | some sign => exact gives_fail _ _
  | succ n ih =>
    unfold linksFrom
    refine gives_after fun o => ?_
    cases o with
    | none => exact gives_pure hlinks
    | some sign =>
      dsimp only
      split
      · refine gives_after fun _ => gives_after fun o => ?_
        cases o with
        | none => exact gives_after fun l => gives_fail _ l
        | some e =>
          refine ih ?_
          rw [List.reverse_cons, List.reverse_cons, List.append_assoc]
          exact hlinks.append_pair _ e
      · exact gives_fail _ _

namespace Hereditary

variable {P : ∀ α : Type, Parser α → Prop} (h : Hereditary P)

include h

/-! ## Moves -/

theorem pure (a : α) : P α (pure a) := h.move (fun c => (a, c)) fun _ => rfl

theorem after {p : Parser α} {f : α → Parser β} (hp : P α p) (hf : ∀ a, P β (f a)) :
    P β (p >>= f) := by
  have hgives : Gives p fun _ => True := fun _ _ _ _ => trivial
  exact h.bind hp hgives fun a _ => hf a

theorem map {p : Parser α} (f : α → β) (hp : P α p) : P β (f <$> p) := by
  rw [map_eq_pure_bind]
  exact h.after hp fun a => h.pure (f a)

theorem peek : P _ peek := h.move (fun c => (c.peek, c)) fun _ => rfl

theorem peekPast (mode : Skip) : P _ (peekPast mode) :=
  h.move (fun c => (c.peekPast mode, c)) fun _ => rfl

theorem advance : P _ advance := h.move (fun c => (c.peek, c.advance)) fun _ => rfl

theorem skipWhile (skips : LexemeKind → Bool) : P _ (skipWhile skips) :=
  h.move (fun c => ((), c.skipWhile skips)) fun _ => rfl

theorem skip (mode : Skip) : P _ (skip mode) := h.skipWhile mode.skips

theorem tryTakeIf (wanted : Lexeme → Bool) (mode : Skip) : P _ (tryTakeIf wanted mode) := by
  refine h.move (fun c => c.tryTakeIf wanted mode) fun c => ?_
  rw [Cursor.tryTakeIf_eq]
  split <;> rfl

theorem tryTake (kind : LexemeKind) (mode : Skip) : P _ (tryTake kind mode) := h.tryTakeIf _ mode

theorem take (kind : LexemeKind) (mode : Skip) : P _ (take kind mode) := by
  rw [take_eq]
  unfold need
  refine h.after (h.peekPast mode) fun found => h.after (h.tryTakeIf _ mode) fun o => ?_
  cases o with
  | some l => exact h.pure l
  | none => exact h.fail _ found nofun

/-! ## Expressions -/

theorem tooDeep (l : Lexeme) : P α (Parser.fail .tooDeep l) := h.fail _ l nofun

theorem expectedExpression (l : Lexeme) : P α (Parser.fail .expectedExpression l) :=
  h.fail _ l nofun

theorem negativeNumber? : P _ negativeNumber? := by
  rw [negativeNumber?_eq]
  have hnumber : P _ numberBehind? := h.after h.advance fun _ => h.tryTakeIf _ _
  exact h.after (h.attempt hnumber) fun o => h.pure _

theorem argumentSeparator (isFirst : Bool) : P _ (argumentSeparator isFirst) := by
  unfold Parser.argumentSeparator
  refine h.after (h.skip _) fun _ => ?_
  cases isFirst with
  | true => exact h.pure ()
  | false => exact h.after (h.tryTake _ _) fun _ => h.skip _

section

variable {operand : Parser (Option Expr)} (hoperand : P _ operand)

include hoperand

theorem linksFrom (n : Nat) (links : List Link) : P _ (linksFrom operand n links) := by
  induction n generalizing links with
  | zero =>
    unfold Parser.linksFrom
    refine h.after (h.tryTakeIf _ _) fun o => ?_
    cases o with
    | none => exact h.pure _
    | some sign => exact h.tooDeep sign
  | succ n ih =>
    unfold Parser.linksFrom
    refine h.after (h.tryTakeIf _ _) fun o => ?_
    cases o with
    | none => exact h.pure _
    | some sign =>
      dsimp only
      split
      · refine h.after (h.skip _) fun _ => h.after hoperand fun o => ?_
        cases o with
        | some e => exact ih _
        | none => exact h.after h.peek fun l => h.expectedExpression l
      · exact h.tooDeep sign

theorem expression? : P _ (expression? operand) := by
  unfold Parser.expression?
  refine h.after h.peek fun start => h.after hoperand fun o => ?_
  cases o with
  | none => exact h.pure none
  | some first =>
    have hrow : Gives (Parser.linksFrom operand maxDepth [.operand first]) Chain.IsRow :=
      gives_linksFrom operand maxDepth (Chain.isRow_operand first)
    refine h.bind (h.linksFrom hoperand _ _) hrow fun links hlinks => ?_
    obtain ⟨row, rfl⟩ := hlinks
    rw [Chain.resolve_links]
    dsimp only
    split
    · exact h.tooDeep start
    · exact h.pure _

theorem expression : P _ (expression operand) := by
  unfold Parser.expression
  refine h.after (h.expression? hoperand) fun o => ?_
  cases o with
  | some e => exact h.pure e
  | none => exact h.after h.peek fun l => h.expectedExpression l

theorem argument? (isFirst : Bool) : P _ (argument? operand isFirst) := by
  rw [argument?_eq]
  exact h.attempt (h.after (h.argumentSeparator isFirst) fun _ => h.expression? hoperand)

theorem arguments : P _ (arguments operand) := by
  unfold Parser.arguments
  refine h.after (h.argument? hoperand true) fun o => ?_
  cases o with
  | none => exact h.pure []
  | some first => exact h.after (h.many (h.argument? hoperand false)) fun _ => h.pure _

theorem wordOperand (l : Lexeme) : P _ (wordOperand operand l) := by
  unfold Parser.wordOperand
  split
  · exact h.pure _
  · refine h.after (h.tryTake _ _) fun o => ?_
    cases o with
    | none => exact h.pure _
    | some sign =>
      refine h.after (h.skip _) fun _ => ?_
      exact h.after (h.expression hoperand) fun value => h.pure _
  · exact h.fail _ l nofun

theorem markedOperand : P _ (markedOperand operand) := by
  unfold Parser.markedOperand
  refine h.after h.peek fun l => ?_
  split
  · exact h.after h.advance fun _ => h.after (h.arguments hoperand) fun args => h.pure _
  · refine h.after hoperand fun o => ?_
    cases o with
    | some e => exact h.pure _
    | none => exact h.expectedExpression l

theorem operandOver : P _ (operandOver operand) := by
  unfold Parser.operandOver
  refine h.after h.peek fun l => ?_
  split
  · refine h.after h.advance fun _ => h.after (h.skip _) fun _ => ?_
    refine h.after (h.expression hoperand) fun e => ?_
    exact h.after (h.take _ _) fun _ => h.pure _
  · refine h.after h.advance fun _ => ?_
    split
    · exact h.pure _
    · exact h.fail _ l nofun
  · split
    · exact h.after h.advance fun _ => h.pure _
    · exact h.expectedExpression l
  · exact h.after h.advance fun _ => h.map _ (h.wordOperand hoperand l)
  · exact h.after h.advance fun _ => h.map _ (h.markedOperand hoperand)
  · exact h.after h.negativeNumber? fun _ => h.pure _
  · exact h.pure none

end

/-- Where no level is left, the operand faults at the next lexeme. -/
theorem operandWithin (n : Nat) : P _ (operandWithin n) := by
  induction n with
  | zero =>
    have hfault : P (Option Expr) (Parser.peek >>= Parser.fail .tooDeep) :=
      h.after h.peek fun l => h.tooDeep l
    exact hfault
  | succ n ih => exact h.operandOver ih

/-! ## Statements -/

theorem terminator : P _ terminator := by
  unfold Parser.terminator
  refine h.after (h.skip _) fun _ => h.after h.peek fun l => ?_
  split
  · exact h.after h.advance fun _ => h.pure ()
  · exact h.after h.advance fun _ => h.pure ()
  · exact h.after h.advance fun _ => h.pure ()
  · exact h.pure ()
  · exact h.pure ()
  · exact h.fail _ l nofun

theorem command (place : Location) : P _ (command place) := by
  unfold Parser.command
  refine h.after h.advance fun name => ?_
  refine h.after (h.arguments (h.operandWithin maxDepth)) fun args => ?_
  exact h.after h.terminator fun _ => h.pure _

theorem expressionStatement (place : Location) : P _ (expressionStatement place) := by
  unfold Parser.expressionStatement
  refine h.after (h.expression (h.operandWithin maxDepth)) fun e => ?_
  exact h.after h.terminator fun _ => h.pure _

theorem identifier (mode : Skip) : P _ (identifier mode) := by
  unfold Parser.identifier
  refine h.after (h.peekPast mode) fun ahead => h.after (h.tryTakeIf _ mode) fun o => ?_
  cases o with
  | some l => exact h.pure _
  | none => exact h.fail _ ahead nofun

theorem parameter : P _ parameter := by
  unfold Parser.parameter
  exact h.after (h.identifier _) fun type => h.after (h.identifier _) fun name => h.pure _

theorem furtherParameter? : P _ furtherParameter? := by
  unfold Parser.furtherParameter?
  refine h.after (h.tryTake _ _) fun o => ?_
  cases o with
  | some comma => exact h.map _ h.parameter
  | none => exact h.pure none

theorem parameters : P _ parameters := by
  unfold Parser.parameters
  refine h.after (h.tryTake _ _) fun o => ?_
  cases o with
  | some close => exact h.pure []
  | none =>
    refine h.after h.parameter fun first => h.after (h.many h.furtherParameter?) fun others => ?_
    exact h.after (h.take _ _) fun _ => h.pure _

section

variable {declaration : Lexeme → Parser Statement} (hdeclaration : ∀ l, P _ (declaration l))

include hdeclaration

theorem statement : P _ (statement declaration) := by
  unfold Parser.statement
  refine h.after h.peek fun l => ?_
  split
  · split
    · exact h.after h.advance fun _ => hdeclaration l
    · exact h.fail _ l nofun
  · exact h.expressionStatement _
  · split
    · exact h.expressionStatement _
    · exact h.command _
  · exact h.fail _ l nofun

theorem statement? (inBody : Bool) : P _ (statement? inBody declaration) := by
  unfold Parser.statement?
  refine h.after (h.skipWhile _) fun _ => h.after h.peek fun l => ?_
  split
  · exact h.fail _ l nofun
  · exact h.pure none
  · exact h.pure none
  · exact h.map _ (h.statement hdeclaration)

end

theorem nestedFunction (l : Lexeme) : P Statement (Parser.fail .nestedFunction l) :=
  h.fail _ l nofun

theorem body : P _ body := h.many (h.statement? h.nestedFunction true)

theorem declaration (l : Lexeme) : P _ (declaration l) := by
  unfold Parser.declaration
  refine h.after (h.identifier _) fun name => h.after (h.take _ _) fun _ => ?_
  refine h.after h.parameters fun params => h.after (h.take _ _) fun _ => ?_
  exact h.after h.body fun statements => h.after (h.take _ _) fun _ => h.pure _

theorem script : P _ script := h.many (h.statement? h.declaration false)

end Hereditary

end Parser
end CommandScript
