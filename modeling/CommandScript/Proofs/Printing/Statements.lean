import CommandScript.Proofs.Printing.Expressions

/-!
Printed statements without a body. Such a statement ends its line: it is read up to the line feed,
which is taken with it, or up to the end of the source.
-/

namespace CommandScript
set_option autoImplicit false

open CommandScript.Parser

/-! ## Statements that can be printed -/

/-- An expression that needs no brackets around it to be a statement. -/
def Expr.StandsAlone : Expr → Prop
  | .assign _ _ | .call _ _ | .variable _ => True
  | _ => False

instance : (e : Expr) → Decidable e.StandsAlone
  | .assign _ _ | .call _ _ | .variable _ => isTrue trivial
  | .literal _ | .negate _ | .binary _ _ _ => isFalse id

structure Parameter.Printable (p : Parameter) : Prop where
  nonempty : p.name ≠ ""
  keyword : LexemeKind.isKeyword p.name = false

instance (p : Parameter) : Decidable p.Printable :=
  decidable_of_iff (p.name ≠ "" ∧ LexemeKind.isKeyword p.name = false)
    ⟨fun h => ⟨h.1, h.2⟩, fun h => ⟨h.nonempty, h.keyword⟩⟩

inductive Statement.Printable : Statement → Prop where
  | command {place : Location} {name : String} {args : List Expr} :
      (∀ e ∈ args, e.Printable) → (∀ e ∈ args.tail, ¬ e.IsNegative) → (∀ e ∈ args, e.depth ≤ 127) →
        Printable (.command place name args)
  | expression {place : Location} {e : Expr} :
      e.StandsAlone → e.Printable → e.depth ≤ 127 → Printable (.expression place e)
  | declaration {place : Location} {name : String} {params : List Parameter}
      {body : List Statement} :
      (∀ p ∈ params, p.Printable) → (∀ s ∈ body, Printable s) →
        Printable (.declaration place name params body)

mutual

def Statement.decidablePrintable : (s : Statement) → Decidable s.Printable
  | .command _ _ args =>
    decidable_of_iff ((∀ e ∈ args, e.Printable) ∧ (∀ e ∈ args.tail, ¬ e.IsNegative) ∧
      ∀ e ∈ args, e.depth ≤ 127)
      ⟨fun h => .command h.1 h.2.1 h.2.2, fun | .command h hm hd => ⟨h, hm, hd⟩⟩
  | .expression _ e =>
    decidable_of_iff (e.StandsAlone ∧ e.Printable ∧ e.depth ≤ 127)
      ⟨fun h => .expression h.1 h.2.1 h.2.2, fun | .expression h hp hd => ⟨h, hp, hd⟩⟩
  | .declaration _ _ params body =>
    let _ := Statement.decidablePrintableAll body
    decidable_of_iff ((∀ p ∈ params, p.Printable) ∧ ∀ s ∈ body, s.Printable)
      ⟨fun h => .declaration h.1 h.2, fun | .declaration h hb => ⟨h, hb⟩⟩

def Statement.decidablePrintableAll : (ss : List Statement) → Decidable (∀ s ∈ ss, s.Printable)
  | [] => isTrue nofun
  | s :: ss =>
    let _ := s.decidablePrintable
    let _ := Statement.decidablePrintableAll ss
    decidable_of_iff (s.Printable ∧ ∀ s ∈ ss, s.Printable) List.forall_mem_cons.symm

end

/-! ## Statements that are read back -/

mutual

theorem Statement.steady_of_printable (s : Statement) (h : s.Printable) : s.Steady := by
  cases s with
  | command place name args =>
    cases h with
    | command h hminus =>
      exact .command (Expr.steady_of_printableAll args h) (Expr.not_isSubtracted_of_mem hminus)
  | expression place e =>
    cases h with
    | expression _ h => exact .expression (Expr.steady_of_printable e h)
  | declaration place name params body =>
    cases h with
    | declaration _ h => exact .declaration (Statement.steady_of_printableAll body h)

theorem Statement.steady_of_printableAll (ss : List Statement) (h : ∀ s ∈ ss, s.Printable) :
    ∀ s ∈ ss, s.Steady := by
  cases ss with
  | nil => exact nofun
  | cons s ss =>
    rw [List.forall_mem_cons] at h ⊢
    exact ⟨Statement.steady_of_printable s h.1, Statement.steady_of_printableAll ss h.2⟩

end

/-- The text of the statement stands for no other one, and a parser that has to be strict reads it
back. -/
structure Statement.Readable (strict : Prop) (s : Statement) : Prop where
  wellFormed : s.WellFormed
  steady : s.Steady
  printable : strict → s.Printable

structure Parameter.Readable (strict : Prop) (p : Parameter) : Prop where
  wellFormed : p.WellFormed
  printable : strict → p.Printable

namespace Statement.Readable

variable {strict : Prop} {place : Location} {name : String} {args : List Expr} {e : Expr}
  {params : List Parameter} {body ss : List Statement}

theorem forall_mem (hwell : ∀ s ∈ ss, s.WellFormed) (hsteady : ∀ s ∈ ss, s.Steady)
    (hprint : strict → ∀ s ∈ ss, s.Printable) : ∀ s ∈ ss, s.Readable strict :=
  fun s hs => ⟨hwell s hs, hsteady s hs, fun hstrict => hprint hstrict s hs⟩

theorem of_command (h : (command place name args).Readable strict) :
    (IsWord name ∧ name.toList.head? ≠ some '$') ∧ (∀ e ∈ args, e.Readable strict) ∧
      (∀ e ∈ args.tail, ¬ e.IsSubtracted) ∧ (strict → ∀ e ∈ args, e.depth ≤ 127) := by
  obtain ⟨hwell, hsteady, hprint⟩ := h
  cases hwell with
  | command hname hdollar hwell =>
  cases hsteady with
  | command hsteady hminus =>
  refine ⟨⟨hname, hdollar⟩, .forall_mem hwell hsteady fun hstrict => ?_, hminus, fun hstrict => ?_⟩
  all_goals
    cases hprint hstrict
    assumption

theorem of_expression (h : (expression place e).Readable strict) :
    e.Readable strict ∧ (∀ v, e ≠ .literal v) ∧ (strict → e.StandsAlone) ∧
      (strict → e.depth ≤ 127) := by
  obtain ⟨hwell, hsteady, hprint⟩ := h
  cases hwell with
  | expression hwell hliteral =>
  cases hsteady with
  | expression hsteady =>
  refine ⟨⟨hwell, hsteady, fun hstrict => ?_⟩, hliteral, fun hstrict => ?_, fun hstrict => ?_⟩
  all_goals
    cases hprint hstrict
    assumption

theorem of_declaration (h : (declaration place name params body).Readable strict) :
    IsWord name ∧ (∀ p ∈ params, p.Readable strict) ∧
      ∀ s ∈ body, s.Readable strict ∧ s.isDeclaration = false := by
  obtain ⟨hwell, hsteady, hprint⟩ := h
  cases hwell with
  | declaration hname hparams hwell hplain =>
  cases hsteady with
  | declaration hsteady =>
  refine ⟨hname, fun p hp => ⟨hparams p hp, fun hstrict => ?_⟩, fun s hs => ⟨?_, hplain s hs⟩⟩
  · cases hprint hstrict with
    | declaration hprint => exact hprint p hp
  · refine ⟨hwell s hs, hsteady s hs, fun hstrict => ?_⟩
    cases hprint hstrict with
    | declaration _ hprint => exact hprint s hs

end Statement.Readable

/-! ## Places -/

mutual

/-- The statement as if all of it stood at the start of a source. -/
def Statement.unplaced : Statement → Statement
  | .command _ name args => .command Location.start name args
  | .expression _ e => .expression Location.start e
  | .declaration _ name params body =>
    .declaration Location.start name params (Statement.unplacedAll body)

def Statement.unplacedAll : List Statement → List Statement
  | [] => []
  | s :: ss => s.unplaced :: Statement.unplacedAll ss

end

theorem Statement.unplacedAll_eq {ss ss' : List Statement}
    (h : List.Forall₂ (fun s s' => s'.unplaced = s.unplaced) ss ss') :
    unplacedAll ss' = unplacedAll ss := by
  induction h with
  | nil => rfl
  | cons hs _ ih =>
    unfold unplacedAll
    rw [hs, ih]

/-! ## Ends of lines -/

/-- The line ends here, and `next` is the text below it. -/
def EndsLine (rest next : List Char) : Prop := rest = '\n' :: next ∨ rest = [] ∧ next = []

variable {strict : Prop} {rest next : List Char}

theorem EndsLine.follows (h : EndsLine rest next) : Follows LexemeKind.endsArguments rest := by
  rcases h with rfl | ⟨rfl, -⟩
  · exact follows_newLine rfl
  · exact follows_nil rfl

theorem EndsLine.answers_terminator (h : EndsLine rest next) :
    Answers strict terminator rest next fun _ => True := by
  unfold terminator
  rcases h with rfl | ⟨rfl, rfl⟩
  · refine (answers_skip skipped_newLine).bind fun _ _ => ?_
    refine answers_peek_front front_newLine fun l hkind _ => ?_
    simp only [hkind]
    exact (answers_advance tokens_newLine).bind fun _ _ => answers_pure trivial
  · refine (answers_skip skipped_nil).bind fun _ _ => ?_
    refine answers_peek_front front_nil fun l hkind _ => ?_
    simp only [hkind]
    exact answers_pure trivial

/-! ## Commands and expressions -/

namespace Expr

theorem answers_bareSource {e : Expr} (hbare : e.StandsAlone) (he : e.Readable strict)
    (hdepth : strict → e.depth ≤ 127) (hrest : Follows LexemeKind.endsArguments rest) :
    Answers strict (expression? operand) (e.bareSource.toList ++ rest) rest (· = some e) := by
  have hrest' := hrest.weaken fun _ => LexemeKind.endsExpression_of_endsArguments
  have hrest'' := hrest'.weaken fun _ => LexemeKind.endsOperand_of_endsExpression
  have hlevels : 255 ≤ maxDepth := by decide
  have hmax : strict → e.depth ≤ maxDepth := fun h => (hdepth h).trans (by decide)
  have henough : Enough strict e.depth 255 := fun h => by
    have hdepth := hdepth h
    omega
  change Answers strict (expression? (operandOver (operandWithin 255))) _ _ _
  cases e with
  | «variable» name =>
    have hname := he.of_variable
    have hword := tokens_word (isWord_dollar hname) hrest.boundary
    exact answers_expression?_operand (answers_variable hword hname.nonempty hrest'') hmax
      (noLink hrest')
  | assign name value =>
    obtain ⟨hname, hvalue⟩ := he.of_assign
    refine answers_bareSource_assign hname hvalue.wellFormed hmax hrest' ?_
    exact offers_source hvalue hrest.boundary fun hlowest =>
      answers_source value hvalue hlowest (henough.of_le (Nat.le_succ value.depth)) hlevels hrest''
  | call name args =>
    obtain ⟨⟨hname, hisName⟩, hargs, hminus⟩ := he.of_call
    refine answers_bareSource_call hargs hname hisName hmax hrest' fun hlowest => ?_
    exact answers_sourceOfAll args hargs hminus hlowest
      (henough.of_le (Nat.le_succ (depthOfAll args))) hlevels hrest
  | literal => exact hbare.elim
  | negate => exact hbare.elim
  | binary => exact hbare.elim

end Expr

namespace Parser

/-- A statement does not end before the lowest number. -/
theorem answers_terminator_lowest {es : List Expr} {P : Unit → Prop}
    (hes : ∀ e ∈ es, e.Readable strict) (hlowest : Expr.BeginsLowest es) (hrest : Boundary rest) :
    Answers strict terminator ((Expr.sourceOfAll es).toList ++ rest) next P := by
  have hstrict := Expr.not_strict_of_beginsLowest hes hlowest
  obtain ⟨mid, w, after, hskipped, hsigned, -⟩ := Expr.signedWord_of_beginsLowest hes hlowest hrest
  unfold terminator
  refine (answers_skip hskipped).bind fun _ _ => ?_
  refine answers_peek_front (front_of_tokens hsigned.sign) fun l hkind _ => ?_
  simp only [hkind]
  exact answers_fail hstrict _ l

theorem answers_command {place : Location} {name : String} {args : List Expr}
    (hname : IsWord name) (hargs : ∀ e ∈ args, e.Readable strict)
    (hminus : ∀ e ∈ args.tail, ¬ e.IsSubtracted) (hdepth : strict → ∀ e ∈ args, e.depth ≤ 127)
    (hline : EndsLine rest next) :
    Answers strict (command place) (name.toList ++ ((Expr.sourceOfAll args).toList ++ rest)) next
      (· = .command place name args) := by
  have hboundary := hline.follows.boundary
  unfold command
  refine (answers_advance (tokens_word hname
    (Expr.boundary_sourceOfAll args hboundary))).bind fun l hl => ?_
  by_cases hlowest : Expr.BeginsLowest args
  · have hfault : Answers strict terminator _ next fun _ => False :=
      answers_terminator_lowest hargs hlowest hboundary
    have hnone := Expr.answers_sourceOfAll_lowest hargs hlowest hboundary maxDepth
    exact hnone.bind fun _ _ => hfault.bind nofun
  · have henough : Expr.Enough strict (Expr.depthOfAll args) maxDepth := fun hstrict => by
      have hall := Expr.depthOfAll_le_iff.mpr (hdepth hstrict)
      unfold maxDepth
      omega
    refine (Expr.answers_sourceOfAll args hargs hminus hlowest henough (Nat.le_refl _)
      hline.follows).bind ?_
    rintro _ rfl
    refine hline.answers_terminator.bind fun _ _ => answers_pure ?_
    rw [Lexeme.content_of_token hl]

theorem answers_expressionStatement {place : Location} {e : Expr} (hbare : e.StandsAlone)
    (he : e.Readable strict) (hdepth : strict → e.depth ≤ 127) (hline : EndsLine rest next) :
    Answers strict (expressionStatement place) (e.bareSource.toList ++ rest) next
      (· = .expression place e) := by
  have hanswer := Expr.answers_bareSource hbare he hdepth hline.follows
  unfold expressionStatement
  refine (answers_expression (.inl hanswer)).bind ?_
  rintro _ rfl
  exact hline.answers_terminator.bind fun _ _ => answers_pure rfl

/-! ## The first token of a statement -/

/-- A statement that is an expression begins with the mark of a call or with a variable. -/
theorem front_bareSource {e : Expr} (hbare : e.StandsAlone) (hwell : e.WellFormed)
    (hrest : Boundary rest) :
    (front (e.bareSource.toList ++ rest)).kind = .exclamation ∨
      ∃ name, front (e.bareSource.toList ++ rest) = ⟨.word, "$" ++ name⟩ := by
  cases hwell with
  | @«variable» name hname =>
    exact .inr ⟨name, front_of_tokens (tokens_word (isWord_dollar hname) hrest)⟩
  | @assign name value hname =>
    rw [Expr.toList_bareSource_assign]
    exact .inr ⟨name, front_of_tokens (tokens_word (isWord_dollar hname) (stopsAt_cons (by decide)))⟩
  | call =>
    rw [Expr.toList_bareSource_call]
    exact .inl (front_symbol rfl)
  | literal => exact hbare.elim
  | negate => exact hbare.elim
  | binary => exact hbare.elim

/-- An expression that needs brackets to be a statement begins with one. -/
theorem exists_bracket {e : Expr} (hbare : ¬ e.StandsAlone) (hliteral : ∀ v, e ≠ .literal v) :
    ∃ cs, e.bareSource.toList ++ rest = '(' :: cs := by
  cases e with
  | negate e => exact ⟨_, Expr.toList_source_negate e⟩
  | binary left op right => exact ⟨_, Expr.toList_source_binary left op right⟩
  | literal v => exact absurd rfl (hliteral v)
  | _ => exact absurd trivial hbare

variable {declaration : Lexeme → Parser Statement}

/-- No statement begins with a bracket. -/
theorem answers_statement_bracket {cs stop : List Char} {P : Statement → Prop} (hstrict : ¬ strict) :
    Answers strict (statement declaration) ('(' :: cs) stop P := by
  have hopen : tokens ('(' :: cs) = ⟨.leftParen, "("⟩ :: tokens cs := tokens_symbol rfl
  unfold statement
  refine answers_peek_front (front_of_tokens hopen) fun l hkind _ => ?_
  simp only [hkind]
  exact answers_fail hstrict _ l

theorem answers_statement_expression {place : Location} {e : Expr}
    (h : (Statement.expression place e).Readable strict) (hline : EndsLine rest next) :
    Answers strict (statement declaration) (e.bareSource.toList ++ rest) next
      fun s => ∃ place, s = .expression place e := by
  obtain ⟨he, hliteral, hbare, hdepth⟩ := h.of_expression
  by_cases hstands : e.StandsAlone
  · unfold statement
    refine answers_peek_bind fun l hl => ?_
    have hplaced : Answers strict (expressionStatement l.start) (e.bareSource.toList ++ rest) next
        fun s => ∃ place, s = .expression place e :=
      (answers_expressionStatement hstands he hdepth hline).weaken fun s hs => ⟨l.start, hs⟩
    rcases front_bareSource hstands he.wellFormed hline.follows.boundary with hfront | ⟨name, hfront⟩
    · simp only [Lexeme.kind_of_token hl, hfront]
      exact hplaced
    · rw [hfront] at hl
      simp only [Lexeme.kind_of_token hl]
      rw [if_pos (by rw [Lexeme.content_of_token hl, String.toList_append]; rfl)]
      exact hplaced
  · obtain ⟨cs, hcs⟩ := exists_bracket hstands hliteral
    rw [hcs]
    exact answers_statement_bracket fun hstrict => hstands (hbare hstrict)

theorem answers_statement_command {place : Location} {name : String} {args : List Expr}
    (h : (Statement.command place name args).Readable strict) (hline : EndsLine rest next) :
    Answers strict (statement declaration)
      (name.toList ++ ((Expr.sourceOfAll args).toList ++ rest)) next
      fun s => ∃ place, s = .command place name args := by
  obtain ⟨⟨hname, hdollar⟩, hargs, hminus, hdepth⟩ := h.of_command
  have hboundary := Expr.boundary_sourceOfAll args hline.follows.boundary
  unfold statement
  refine answers_peek_front (front_of_tokens (tokens_word hname hboundary)) fun l hkind hcontent => ?_
  simp only [hkind]
  rw [if_neg (by rw [hcontent]; exact hdollar)]
  exact (answers_command hname hargs hminus hdepth hline).weaken fun s hs => ⟨l.start, hs⟩

end Parser

end CommandScript
