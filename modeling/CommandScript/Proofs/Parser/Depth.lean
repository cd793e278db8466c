import CommandScript.Proofs.Parser.Expressions
import CommandScript.Parser.Statement

/-!
How deep parsed expressions are. The parser checks the depth of each expression that it reads for a
command or as a statement, so no expression of a parsed script is deeper than the limit, in the
bodies of functions either.
-/

namespace CommandScript
set_option autoImplicit false

/-! ## The depth of statements -/

namespace Statement

mutual

/-- The greatest depth of an expression in the statement, the statements of a body included. -/
def exprDepth : Statement → Nat
  | .command _ _ args => Expr.depthOfAll args
  | .expression _ e => e.depth
  | .declaration _ _ _ body => exprDepthOfAll body

def exprDepthOfAll : List Statement → Nat
  | [] => 0
  | s :: ss => max s.exprDepth (exprDepthOfAll ss)

end

theorem exprDepthOfAll_le_iff {ss : List Statement} {n : Nat} :
    exprDepthOfAll ss ≤ n ↔ ∀ s ∈ ss, s.exprDepth ≤ n := by
  induction ss with
  | nil => simp [exprDepthOfAll]
  | cons s ss ih => rw [exprDepthOfAll, Nat.max_le, ih, List.forall_mem_cons]

end Statement

/-! ## Answers of parsers -/

namespace Parser

variable {α β : Type} {p : Parser α} {P : α → Prop} {Q : β → Prop}

/-- Every answer of the parser is as `P` says. -/
def Gives (p : Parser α) (P : α → Prop) : Prop := ∀ c a c', p c = .ok (a, c') → P a

theorem gives_pure {a : α} (h : P a) : Gives (pure a) P := by
  intro c b c' hp
  cases hp
  exact h

theorem gives_fail (fault : SyntaxFault) (l : Lexeme) : Gives (fail fault l : Parser α) P :=
  fun _ _ _ hp => nomatch hp

theorem gives_bind {f : α → Parser β} (hp : Gives p P) (hf : ∀ a, P a → Gives (f a) Q) :
    Gives (p >>= f) Q := by
  intro c b c'' h
  rw [bind_apply] at h
  rcases hr : p c with e | ⟨a, c'⟩
  · rw [hr] at h
    exact nomatch h
  · rw [hr] at h
    exact hf a (hp c a c' hr) c' b c'' h

theorem gives_after {f : α → Parser β} (hf : ∀ a, Gives (f a) Q) : Gives (p >>= f) Q := by
  have hp : Gives p fun _ => True := fun _ _ _ _ => trivial
  exact gives_bind hp fun a _ => hf a

theorem gives_map {f : α → β} (hp : Gives p P) (hf : ∀ a, P a → Q (f a)) : Gives (f <$> p) Q := by
  rw [map_eq_pure_bind]
  exact gives_bind hp fun a ha => gives_pure (hf a ha)

/-- Where the parser has an answer at all, it is as `P` says. -/
def GivesSome (p : Parser (Option α)) (P : α → Prop) : Prop := Gives p fun o => ∀ a, o = some a → P a

theorem givesSome_none : GivesSome (pure none) P := gives_pure nofun

theorem givesSome_some {a : α} (h : P a) : GivesSome (pure (some a)) P := by
  refine gives_pure fun b hb => ?_
  cases hb
  exact h

theorem givesSome_attempt {p : Parser (Option α)} (h : GivesSome p P) : GivesSome (attempt p) P := by
  unfold attempt
  refine gives_after fun _ => gives_bind h fun o ho => ?_
  cases o with
  | none => exact gives_after fun _ => givesSome_none
  | some a => exact gives_after fun _ => givesSome_some (ho a rfl)

theorem gives_many {step : Parser (Option α)} (hstep : GivesSome step P) :
    Gives (many step) fun as => ∀ a ∈ as, P a := by
  have hwithin (rounds : List Lexeme) (found : List α) (hfound : ∀ a ∈ found, P a) :
      Gives (manyWithin step found rounds) fun as => ∀ a ∈ as, P a := by
    induction rounds generalizing found with
    | nil =>
      intro c as c' h
      cases h
      simpa using hfound
    | cons x rounds ih =>
      intro c as c' h
      unfold manyWithin at h
      rcases hr : step c with e | ⟨_ | a, c''⟩
      · rw [hr] at h
        cases h
      · rw [hr] at h
        cases h
        simpa using hfound
      · rw [hr] at h
        have ha : P a := hstep c (some a) c'' hr a rfl
        exact ih (a :: found) (List.forall_mem_cons.mpr ⟨ha, hfound⟩) c'' as c' h
  exact fun c => hwithin _ [] (List.forall_mem_nil P) c

/-! ## Expressions -/

section

variable (operand : Parser (Option Expr))

theorem givesSome_expression? : GivesSome (expression? operand) fun e => e.depth ≤ maxDepth := by
  unfold expression?
  refine gives_after fun start => gives_after fun o => ?_
  cases o with
  | none => exact givesSome_none
  | some first =>
    refine gives_after fun links => ?_
    cases Chain.resolve links with
    | none => exact gives_fail _ _
    | some e =>
      dsimp only
      split
      · exact gives_fail _ _
      · rename_i hdepth
        exact givesSome_some (Nat.le_of_not_lt hdepth)

theorem gives_expression : Gives (expression operand) fun e => e.depth ≤ maxDepth := by
  unfold expression
  refine gives_bind (givesSome_expression? operand) fun o ho => ?_
  cases o with
  | none => exact gives_after fun l => gives_fail _ _
  | some e => exact gives_pure (ho e rfl)

theorem givesSome_argument? (isFirst : Bool) :
    GivesSome (argument? operand isFirst) fun e => e.depth ≤ maxDepth := by
  rw [argument?_eq]
  exact givesSome_attempt (gives_after fun _ => givesSome_expression? operand)

theorem gives_arguments : Gives (arguments operand) fun es => Expr.depthOfAll es ≤ maxDepth := by
  unfold arguments
  refine gives_bind (givesSome_argument? operand true) fun o ho => ?_
  cases o with
  | none => exact gives_pure (Nat.zero_le _)
  | some first =>
    refine gives_bind (gives_many (givesSome_argument? operand false)) fun others hothers => ?_
    refine gives_pure (Expr.depthOfAll_le_iff.mpr ?_)
    exact List.forall_mem_cons.mpr ⟨ho first rfl, hothers⟩

end

/-! ## Statements -/

/-- No expression in the statement is deeper than the parser allows. -/
abbrev Shallow (s : Statement) : Prop := s.exprDepth ≤ maxDepth

theorem gives_command (place : Location) : Gives (command place) Shallow := by
  unfold command
  refine gives_after fun name => gives_bind (gives_arguments operand) fun args hargs => ?_
  exact gives_after fun _ => gives_pure hargs

theorem gives_expressionStatement (place : Location) :
    Gives (expressionStatement place) Shallow := by
  unfold expressionStatement
  refine gives_bind (gives_expression operand) fun e he => ?_
  exact gives_after fun _ => gives_pure he

section

variable {declaration : Lexeme → Parser Statement} (hdeclaration : ∀ l, Gives (declaration l) Shallow)

include hdeclaration

theorem gives_statement : Gives (statement declaration) Shallow := by
  unfold statement
  refine gives_after fun l => ?_
  split
  · split
    · exact gives_after fun _ => hdeclaration l
    · exact gives_fail _ _
  · exact gives_expressionStatement _
  · split
    · exact gives_expressionStatement _
    · exact gives_command _
  · exact gives_fail _ _

theorem givesSome_statement? (inBody : Bool) :
    GivesSome (statement? inBody declaration) Shallow := by
  unfold statement?
  refine gives_after fun _ => gives_after fun l => ?_
  split
  · exact gives_fail _ _
  · exact givesSome_none
  · exact givesSome_none
  · refine gives_map (gives_statement hdeclaration) fun s hs s' h => ?_
    cases h
    exact hs

end

theorem gives_body : Gives body fun ss => Statement.exprDepthOfAll ss ≤ maxDepth := by
  intro c ss c' h
  exact Statement.exprDepthOfAll_le_iff.mpr
    (gives_many (givesSome_statement? (fun l => gives_fail _ l) true) c ss c' h)

theorem gives_declaration (l : Lexeme) : Gives (declaration l) Shallow := by
  unfold declaration
  refine gives_after fun name => gives_after fun _ => gives_after fun params => ?_
  refine gives_after fun _ => gives_bind gives_body fun ss hss => ?_
  exact gives_after fun _ => gives_pure hss

end Parser

/-- No expression of a parsed script is deeper than the parser allows. -/
theorem Script.exprDepth_le_of_ofLexemes {ls : List Lexeme} {script : Script}
    (h : Script.ofLexemes ls = .ok script) :
    Statement.exprDepthOfAll script ≤ Parser.maxDepth := by
  unfold Script.ofLexemes at h
  rcases hrun : Parser.script (Cursor.ofLexemes ls) with e | ⟨ss, c⟩
  · rw [hrun] at h
    exact nomatch h
  · rw [hrun] at h
    obtain rfl : ss = script := Except.ok.inj h
    have hgives := Parser.gives_many (Parser.givesSome_statement? Parser.gives_declaration false)
    exact Statement.exprDepthOfAll_le_iff.mpr (hgives _ _ _ hrun)

end CommandScript
