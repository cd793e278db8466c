import CommandScript.Proofs.Parser.Expressions
import CommandScript.Proofs.Walker.Chain

/-!
Expressions by index. An operand counts itself while it is read, and is not read at all when the counter
is at the limit. This is the parser of operands with as many levels as the counter is below the limit.
-/

namespace CommandScript
namespace Walker
set_option autoImplicit false

variable (ls : List Lexeme)

/-! ## The walkers of expressions -/

/-- The number behind a minus sign that is the next lexeme, if nothing stands between the two. -/
noncomputable def negativeNumber? : Walker (Option Float) := do
  mark
  let _ ← advance ls
  match ← tryTakeIf ls Parser.isNumber .nothing with
  | some l =>
    commit
    pure ((Number.ofWord? l.content).map fun x => -x)
  | none =>
    rollback
    pure none

/-- The walkers of expressions that call one another. -/
inductive Phrase where
  /-- An operand, if one begins here; it is one level deeper than what is around it. -/
  | operand
  /-- The operand that begins with the next lexeme `l`, if that begins one. -/
  | nested (l : Lexeme)
  | wordOperand (l : Lexeme)
  | markedOperand
  | argument? (isFirst : Bool)
  /-- The arguments, behind those in `args`. -/
  | argumentsFrom (args : List Expr)
  /-- An expression, if one begins here. -/
  | expression?
  | expression
  /-- The links of a chain, behind those in `chain`. -/
  | linksFrom (chain : List Link)

abbrev Phrase.Answer : Phrase → Type
  | operand | nested _ | argument? _ | expression? => Option Expr
  | wordOperand _ | markedOperand | expression => Expr
  | argumentsFrom _ => List Expr
  | linksFrom _ => List Link

/-- What each of them does, calling the others with `call`. -/
noncomputable def Phrase.step (call : ∀ p : Phrase, Walker p.Answer) :
    ∀ p : Phrase, Walker p.Answer
  | operand => do
    let l ← peek ls
    if Parser.maxDepth ≤ (← get).nesting then fail .tooDeep l
    else fun w => do
      let (answer, w') ← call (nested l) w.deeper
      pure (answer, w'.back)
  | nested l => do
    match l.kind with
    | .leftParen =>
      let _ ← advance ls
      skip ls .whitespace
      let e ← call expression
      let _ ← take ls .rightParen .whitespace
      pure (some e)
    | .quotedString =>
      let _ ← advance ls
      match Text.unquote? l.content with
      | some s => pure (some (.literal (.text s)))
      | none => fail .unterminatedString l
    | .keyword =>
      if l.content = "true" ∨ l.content = "false" then
        let _ ← advance ls
        pure (some (.literal (.boolean (l.content = "true"))))
      else fail .expectedExpression l
    | .word =>
      let _ ← advance ls
      some <$> call (wordOperand l)
    | .exclamation =>
      let _ ← advance ls
      some <$> call markedOperand
    | .minus => return (← negativeNumber? ls).map fun x => .literal (.number x)
    | _ => pure none
  | wordOperand l => do
    match Number.ofWord? l.content, Parser.variableName? l.content with
    | some x, _ => pure (.literal (.number x))
    | none, some name =>
      match ← tryTake ls .equals .whitespace with
      | some _ =>
        skip ls .whitespace
        let value ← call expression
        pure (.assign name value)
      | none => pure (.variable name)
    | none, none => fail .invalidString l
  | markedOperand => do
    let l ← peek ls
    if l.kind == .word && Parser.isName l.content then
      let _ ← advance ls
      let args ← call (argumentsFrom [])
      pure (.call l.content args)
    else
      match ← call operand with
      | some e => pure (.negate e)
      | none => fail .expectedExpression l
  | argument? isFirst => do
    mark
    skip ls .whitespace
    if !isFirst then
      let _ ← tryTake ls .comma .nothing
      skip ls .whitespace
    match ← call expression? with
    | some e =>
      commit
      pure (some e)
    | none =>
      rollback
      pure none
  | argumentsFrom args => do
    match ← call (argument? args.isEmpty) with
    | some e => call (argumentsFrom (args ++ [e]))
    | none => pure args
  | expression? => do
    let start ← peek ls
    match ← call operand with
    | none => pure none
    | some first =>
      let chain ← call (linksFrom [.operand first])
      let e ← resolve start chain
      if e.depth > Parser.maxDepth then fail .tooDeep start else pure (some e)
  | expression => do
    match ← call expression? with
    | some e => pure e
    | none =>
      let l ← peek ls
      fail .expectedExpression l
  | linksFrom chain => do
    match ← tryTakeIf ls (fun l => (Operator.ofKind? l.kind).isSome) .whitespace with
    | none => pure chain
    | some sign =>
      if Parser.maxDepth ≤ chain.length / 2 then fail .tooDeep sign
      else
        skip ls .whitespace
        match ← call operand with
        | none =>
          let l ← peek ls
          fail .expectedExpression l
        | some e =>
          match Operator.ofKind? sign.kind with
          | some op => call (linksFrom (chain ++ [.operator op, .operand e]))
          | none => call (linksFrom (chain ++ [.operand e]))

theorem Phrase.continuous_step : Continuous (Phrase.step ls) := by
  intro call called hcall p
  cases p with
  | operand =>
    exact .after _ fun l => .after _ fun w => .ite (.const _) (.around _ _ (hcall (nested l)))
  | nested l =>
    dsimp only [step]
    cases l.kind with
    | leftParen =>
      exact .after _ fun _ => .after _ fun _ => .bind (hcall expression) fun _ => .const _
    | word => exact .after _ fun _ => .map some (hcall (wordOperand l))
    | exclamation => exact .after _ fun _ => .map some (hcall markedOperand)
    | _ => exact .const _
  | wordOperand l =>
    dsimp only [step]
    cases Number.ofWord? l.content with
    | some x => exact .const _
    | none =>
      cases Parser.variableName? l.content with
      | none => exact .const _
      | some name =>
        refine .after _ ?_
        rintro (_ | sign)
        · exact .const _
        · exact .after _ fun _ => .bind (hcall expression) fun _ => .const _
  | markedOperand =>
    refine .after _ fun l => .ite ?_ ?_
    · exact .after _ fun _ => .bind (hcall (argumentsFrom [])) fun _ => .const _
    · exact .bind (hcall operand) fun _ => .const _
  | argument? isFirst =>
    refine .after _ fun _ => .after _ fun _ => .ite ?_ ?_
    · exact .after _ fun _ => .after _ fun _ => .bind (hcall expression?) fun _ => .const _
    · exact .bind (hcall expression?) fun _ => .const _
  | argumentsFrom args =>
    refine .bind (hcall (argument? args.isEmpty)) ?_
    rintro (_ | e)
    · exact .const _
    · exact hcall _
  | expression? =>
    refine .after _ fun start => .bind (hcall operand) ?_
    rintro (_ | first)
    · exact .const _
    · exact .bind (hcall (linksFrom [.operand first])) fun _ => .const _
  | expression => exact .bind (hcall expression?) fun _ => .const _
  | linksFrom chain =>
    refine .after _ ?_
    rintro (_ | sign)
    · exact .const _
    · refine .ite (.const _) (.after _ fun _ => .bind (hcall operand) ?_)
      rintro (_ | e)
      · exact .const _
      · dsimp only
        cases Operator.ofKind? sign.kind with
        | some op => exact hcall _
        | none => exact hcall _

noncomputable def Phrase.walk (p : Phrase) : Walker p.Answer := fix (Phrase.step ls) p

theorem Phrase.walk_eq (p : Phrase) : p.walk ls = Phrase.step ls (Phrase.walk ls) p :=
  fix_eq (Phrase.continuous_step ls) p

noncomputable def operand : Walker (Option Expr) := Phrase.operand.walk ls

noncomputable def nested (l : Lexeme) : Walker (Option Expr) := (Phrase.nested l).walk ls

noncomputable def wordOperand (l : Lexeme) : Walker Expr := (Phrase.wordOperand l).walk ls

noncomputable def markedOperand : Walker Expr := Phrase.markedOperand.walk ls

noncomputable def argument? (isFirst : Bool) : Walker (Option Expr) :=
  (Phrase.argument? isFirst).walk ls

noncomputable def argumentsFrom (args : List Expr) : Walker (List Expr) :=
  (Phrase.argumentsFrom args).walk ls

noncomputable def expression? : Walker (Option Expr) := Phrase.expression?.walk ls

noncomputable def expression : Walker Expr := Phrase.expression.walk ls

noncomputable def linksFrom (chain : List Link) : Walker (List Link) :=
  (Phrase.linksFrom chain).walk ls

/-! ## Chains and arguments, imitated -/

variable {ls} {n : Nat} {inFunction : Bool}

theorem imitates_negativeNumber? (hends : Ends ls) :
    Imitates ls n inFunction (negativeNumber? ls) Parser.negativeNumber? := by
  unfold negativeNumber? Parser.negativeNumber?
  apply imitates_bind imitates_mark
  intro _
  apply imitates_bind imitates_advance
  intro _
  apply imitates_bind (imitates_tryTakeIf hends _ _)
  rintro (_ | l)
  · exact imitates_bind imitates_rollback fun _ => imitates_pure none
  · exact imitates_bind imitates_commit fun _ => imitates_pure _

/-- The arguments behind those that were read. -/
def argumentsBehind (o : Parser (Option Expr)) : List Expr → Parser (List Expr)
  | [] => Parser.arguments o
  | args => Parser.manyBehind (Parser.argument? o false) args

section

variable {o : Parser (Option Expr)} (hreads : Parser.Reads o (Parser.Optionally Expr.Yields))

include hreads

theorem progress_argument? (isFirst : Bool) : Parser.Progresses (Parser.argument? o isFirst) :=
  (Parser.reads_argument?_ne_nil hreads isFirst).progress

/-- The arguments are read one after the other until there is none. -/
theorem argumentsBehind_apply (args : List Expr) {c : Cursor} (hc : c.Closed) :
    argumentsBehind o args c =
      (Parser.argument? o args.isEmpty >>= fun a =>
        match a with
        | none => pure args
        | some e => argumentsBehind o (args ++ [e])) c := by
  cases args with
  | nil =>
    refine congrFun (bind_congr fun a => ?_) c
    cases a with
    | none => rfl
    | some e => exact (map_eq_pure_bind _ _).symm
  | cons a as =>
    refine (Parser.manyBehind_apply (progress_argument? hreads false) (a :: as) hc).trans ?_
    refine congrFun (bind_congr fun o => ?_) c
    cases o <;> rfl

end

section

variable {o : Parser (Option Expr)} (hends : Ends ls)
  (hoperand : Imitates ls n inFunction (operand ls) o)

include hends hoperand

/-- A chain has two links for each of its operators, and one more. -/
theorem imitates_linksFrom (k : Nat) (links : List Link)
    (hlength : links.length + 2 * k = 2 * Parser.maxDepth + 1) :
    Imitates ls n inFunction (linksFrom ls links.reverse) (Parser.linksFrom o k links) := by
  induction k generalizing links with
  | zero =>
    have hlimit : Parser.maxDepth ≤ links.reverse.length / 2 := by
      rw [List.length_reverse]
      omega
    rw [linksFrom, Phrase.walk_eq, Phrase.step, Parser.linksFrom]
    apply imitates_bind (imitates_tryTakeIf hends _ _)
    rintro (_ | sign)
    · exact imitates_pure links.reverse
    · dsimp only
      rw [if_pos hlimit]
      exact imitates_fail .tooDeep sign
  | succ k ih =>
    have hlimit : ¬ Parser.maxDepth ≤ links.reverse.length / 2 := by
      rw [List.length_reverse]
      omega
    rw [linksFrom, Phrase.walk_eq, Phrase.step, Parser.linksFrom]
    apply imitates_bind_of_gives (imitates_tryTakeIf hends _ _) (gives_tryTakeIf _ _)
    rintro (_ | sign) hsign
    · exact imitates_pure links.reverse
    · obtain ⟨op, hop⟩ := Option.isSome_iff_exists.mp (hsign sign rfl)
      dsimp only
      rw [if_neg hlimit, hop]
      apply imitates_bind (imitates_skip hends _)
      intro _
      apply imitates_bind hoperand
      rintro (_ | e)
      · exact imitates_bind imitates_peek fun l => imitates_fail .expectedExpression l
      · have hmore := ih (.operand e :: .operator op :: links) (by simp only [List.length_cons]; omega)
        rw [List.reverse_cons, List.reverse_cons, List.append_assoc] at hmore
        exact hmore

theorem imitates_expression? :
    Imitates ls n inFunction (expression? ls) (Parser.expression? o) := by
  rw [expression?, Phrase.walk_eq, Phrase.step]
  unfold Parser.expression?
  apply imitates_bind imitates_peek
  intro start
  apply imitates_bind hoperand
  rintro (_ | first)
  · exact imitates_pure none
  · apply imitates_bind (imitates_linksFrom hends hoperand Parser.maxDepth [.operand first] rfl)
    intro chain
    have hcheck (e : Expr) : Imitates ls n inFunction
        (if e.depth > Parser.maxDepth then fail .tooDeep start else pure (some e))
        (if e.depth > Parser.maxDepth then Parser.fail .tooDeep start else pure (some e)) := by
      split
      · exact imitates_fail .tooDeep start
      · exact imitates_pure (some e)
    have hboth := imitates_bind (imitates_resolve start chain) hcheck
    cases hresolve : Chain.resolve chain with
    | none =>
      rw [hresolve] at hboth
      exact hboth
    | some e =>
      rw [hresolve] at hboth
      exact hboth

theorem imitates_expression : Imitates ls n inFunction (expression ls) (Parser.expression o) := by
  rw [expression, Phrase.walk_eq, Phrase.step]
  unfold Parser.expression
  apply imitates_bind (imitates_expression? hends hoperand)
  rintro (_ | e)
  · exact imitates_bind imitates_peek fun l => imitates_fail .expectedExpression l
  · exact imitates_pure e

theorem imitates_argument? (isFirst : Bool) :
    Imitates ls n inFunction (argument? ls isFirst) (Parser.argument? o isFirst) := by
  rw [argument?, Phrase.walk_eq, Phrase.step]
  unfold Parser.argument?
  apply imitates_bind imitates_mark
  intro _
  apply imitates_bind (imitates_skip hends _)
  intro _
  cases isFirst
  -- Before an argument that is not the first there may be a comma.
  case' false =>
    apply imitates_bind (imitates_tryTake hends _ _)
    intro _
    apply imitates_bind (imitates_skip hends _)
    intro _
  all_goals
    apply imitates_bind (imitates_expression? hends hoperand)
    rintro (_ | e)
    · exact imitates_bind imitates_rollback fun _ => imitates_pure none
    · exact imitates_bind imitates_commit fun _ => imitates_pure (some e)

theorem imitates_argumentsFrom (hreads : Parser.Reads o (Parser.Optionally Expr.Yields))
    (args : List Expr) :
    Imitates ls n inFunction (argumentsFrom ls args) (argumentsBehind o args) := by
  refine imitates_of_shorter (fun args w c hlevel hshows ih => ?_) args
  have hclosed : c.Closed := hshows.position.closed hends
  rw [argumentsFrom, Phrase.walk_eq, Phrase.step, argumentsBehind_apply hreads args hclosed]
  apply meets_bind (imitates_argument? hends hoperand args.isEmpty w c hlevel hshows)
  rintro (_ | e) w' c' hr hlevel' hshows'
  · exact imitates_pure args w' c' hlevel' hshows'
  · have hshorter := (progress_argument? hreads args.isEmpty).shorter hclosed hr
    exact ih (args ++ [e]) w' c' hshorter.2 hlevel' hshows'

theorem imitates_wordOperand (l : Lexeme) :
    Imitates ls n inFunction (wordOperand ls l) (Parser.wordOperand o l) := by
  have hexpression := imitates_expression hends hoperand
  rw [wordOperand, Phrase.walk_eq, Phrase.step]
  unfold Parser.wordOperand
  cases Number.ofWord? l.content with
  | some x => exact imitates_pure _
  | none =>
    cases Parser.variableName? l.content with
    | none => exact imitates_fail .invalidString l
    | some name =>
      apply imitates_bind (imitates_tryTake hends _ _)
      rintro (_ | sign)
      · exact imitates_pure _
      · apply imitates_bind (imitates_skip hends _)
        intro _
        exact imitates_bind hexpression fun value => imitates_pure _

theorem imitates_markedOperand (hreads : Parser.Reads o (Parser.Optionally Expr.Yields)) :
    Imitates ls n inFunction (markedOperand ls) (Parser.markedOperand o) := by
  rw [markedOperand, Phrase.walk_eq, Phrase.step]
  unfold Parser.markedOperand
  apply imitates_bind imitates_peek
  intro l
  split
  · apply imitates_bind imitates_advance
    intro _
    exact imitates_bind (imitates_argumentsFrom hends hoperand hreads []) fun args => imitates_pure _
  · apply imitates_bind hoperand
    rintro (_ | e)
    · exact imitates_fail .expectedExpression l
    · exact imitates_pure _

/-! ## Operands, imitated -/

theorem nested_meets (hreads : Parser.Reads o (Parser.Optionally Expr.Yields)) {w : Walk} {c : Cursor}
    (hlevel : w.Level n inFunction) (hshows : w.Shows ls c) :
    Meets ls n inFunction (nested ls c.peek w) (Parser.operandOver o c) := by
  have hexpression := imitates_expression hends hoperand
  unfold Parser.operandOver
  rw [Parser.bind_apply]
  dsimp only [Parser.peek]
  generalize c.peek = l
  revert w c
  change Imitates ls n inFunction _ _
  rw [nested, Phrase.walk_eq, Phrase.step]
  cases l.kind with
  | leftParen =>
    apply imitates_bind imitates_advance
    intro _
    apply imitates_bind (imitates_skip hends _)
    intro _
    apply imitates_bind hexpression
    intro e
    exact imitates_bind (imitates_take hends _ _) fun _ => imitates_pure (some e)
  | quotedString =>
    apply imitates_bind imitates_advance
    intro _
    cases Text.unquote? l.content with
    | some s => exact imitates_pure _
    | none => exact imitates_fail .unterminatedString l
  | keyword =>
    dsimp only
    split
    · exact imitates_bind imitates_advance fun _ => imitates_pure _
    · exact imitates_fail .expectedExpression l
  | word =>
    apply imitates_bind imitates_advance
    intro _
    exact imitates_map (imitates_wordOperand hends hoperand l)
  | exclamation =>
    apply imitates_bind imitates_advance
    intro _
    exact imitates_map (imitates_markedOperand hends hoperand hreads)
  | minus => exact imitates_bind (imitates_negativeNumber? hends) fun x => imitates_pure _
  | _ => exact imitates_pure none

end

theorem get_bind_apply {α : Type} (f : Walk → Walker α) (w : Walk) :
    ((get : Walker Walk) >>= f) w = f w w := rfl

/-- Inside `n` operands the parser with the other levels is imitated. The counter is back at `n` when
the operand ends, with an answer or with a fault. -/
theorem imitates_operandWithin (hends : Ends ls) (k : Nat) (hlevels : n + k = Parser.maxDepth) :
    Imitates ls n inFunction (operand ls) (Parser.operandWithin k) := by
  induction k generalizing n with
  | zero =>
    intro w c hlevel hshows
    have hlimit : Parser.maxDepth ≤ w.nesting := by
      rw [hlevel.nesting]
      omega
    rw [operand, Phrase.walk_eq, Phrase.step, bind_apply, peek_apply hshows]
    dsimp only
    rw [get_bind_apply, if_pos hlimit]
    exact imitates_fail .tooDeep c.peek w c hlevel hshows
  | succ k ih =>
    intro w c hlevel hshows
    have hlimit : ¬ Parser.maxDepth ≤ w.nesting := by
      rw [hlevel.nesting]
      omega
    have hdeeper : w.deeper.Level (n + 1) inFunction := by
      refine ⟨congrArg (· + 1) hlevel.nesting, hlevel.inFunction, Nat.max_le.mpr ⟨hlevel.deepest, ?_⟩⟩
      rw [hlevel.nesting]
      omega
    have hback {w' : Walk} (h : w'.Level (n + 1) inFunction) : w'.back.Level n inFunction :=
      ⟨congrArg (· - 1) h.nesting, h.inFunction, h.deepest⟩
    have hnested := nested_meets hends (ih (n := n + 1) (by omega)) (Parser.reads_operandWithin k)
      hdeeper (c := c) ⟨hshows.index, hshows.position, hshows.marks, hshows.checkpoints⟩
    rw [operand, Phrase.walk_eq, Phrase.step, bind_apply, peek_apply hshows]
    dsimp only
    rw [get_bind_apply, if_neg hlimit]
    change Meets ls n inFunction ((nested ls c.peek w.deeper).bind fun r => some (r.1, r.2.back))
      (Parser.operandOver (Parser.operandWithin k) c)
    rcases hr : Parser.operandOver (Parser.operandWithin k) c with e | ⟨answer, c'⟩
    · rw [hr] at hnested
      obtain ⟨w', hw, hlevel'⟩ := hnested
      rw [hw]
      exact ⟨w'.back, rfl, hback hlevel'⟩
    · rw [hr] at hnested
      obtain ⟨w', hw, hlevel', hshows'⟩ := hnested
      rw [hw]
      refine ⟨w'.back, rfl, hback hlevel', ?_⟩
      exact ⟨hshows'.index, hshows'.position, hshows'.marks, hshows'.checkpoints⟩

end Walker
end CommandScript
