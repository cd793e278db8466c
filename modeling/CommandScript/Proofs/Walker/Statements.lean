import CommandScript.Proofs.Parser.Statements
import CommandScript.Proofs.Walker.Expressions

/-!
Statements by index. Empty statements and comments are passed over one by one in the loop that reads
statements, and a flag says whether that loop reads the body of a function.
-/

namespace CommandScript
namespace Walker
set_option autoImplicit false

variable (ls : List Lexeme)

/-! ## The walkers of statements -/

/-- The end of a statement. A closing brace and the end of the source are left there. -/
noncomputable def terminator : Walker Unit := do
  skip ls .whitespace
  let l ← peek ls
  match l.kind with
  | .semicolon | .newLine | .comment =>
    let _ ← advance ls
    pure ()
  | .endOfFile | .rightBrace => pure ()
  | _ => fail .missingTerminator l

noncomputable def command (place : Location) : Walker Statement := do
  let name ← advance ls
  let args ← argumentsFrom ls []
  terminator ls
  pure (.command place name.content args)

noncomputable def expressionStatement (place : Location) : Walker Statement := do
  let e ← expression ls
  terminator ls
  pure (.expression place e)

noncomputable def identifier (mode : Skip) : Walker String := do
  let ahead ← peekPast ls mode
  match ← tryTakeIf ls (fun l => l.kind == .word) mode with
  | some l => pure l.content
  | none => fail .expectedIdentifier ahead

noncomputable def parameter : Walker Parameter := do
  let type ← identifier ls .layout
  let name ← identifier ls .layout
  pure ⟨type, String.ofList (name.toList.dropWhile (· == '$'))⟩

/-- The parameters, behind those in `params`; a comma stands before all but the first. -/
noncomputable def parametersFrom : List Parameter → Walker (List Parameter) :=
  fix fun parametersFrom params => do
    let p ← parameter ls
    match ← tryTake ls .comma .layout with
    | some _ => parametersFrom (params ++ [p])
    | none => pure (params ++ [p])

theorem parametersFrom_eq (params : List Parameter) :
    parametersFrom ls params = (do
      let p ← parameter ls
      match ← tryTake ls .comma .layout with
      | some _ => parametersFrom ls (params ++ [p])
      | none => pure (params ++ [p])) := by
  refine fix_eq (fun call called hcall params => .after _ fun p => .after _ ?_) params
  rintro (_ | comma)
  · exact .const _
  · exact hcall (params ++ [p])

noncomputable def parameters : Walker (List Parameter) := do
  match ← tryTake ls .rightParen .layout with
  | some _ => pure []
  | none =>
    let params ← parametersFrom ls []
    let _ ← take ls .rightParen .layout
    pure params

/-- The walkers of statements that call one another. -/
inductive Clause where
  /-- The statements, behind those in `found`, up to the end of the source, or up to the closing brace
  of a body. -/
  | statementsFrom (inBody : Bool) (found : List Statement)
  /-- The statement that begins with the next lexeme; a comment is none. -/
  | statement?
  /-- A declaration with the word `function` before it; none stands in the body of another one. -/
  | declaration (place : Location)
  /-- The statements of a body. The flag is down again however they end. -/
  | body

abbrev Clause.Answer : Clause → Type
  | statementsFrom _ _ | body => List Statement
  | statement? => Option Statement
  | declaration _ => Statement

/-- What each of them does, calling the others with `call`. -/
noncomputable def Clause.step (call : ∀ c : Clause, Walker c.Answer) :
    ∀ c : Clause, Walker c.Answer
  | statementsFrom inBody found => do
    skip ls .layout
    match ← tryTake ls .semicolon .nothing with
    | some _ => call (statementsFrom inBody found)
    | none =>
      let l ← peek ls
      match l.kind, inBody with
      | .endOfFile, true => fail (.expected .rightBrace) l
      | .endOfFile, false => pure found
      | .rightBrace, true => pure found
      | _, _ =>
        match ← call statement? with
        | some s => call (statementsFrom inBody (found ++ [s]))
        | none => call (statementsFrom inBody found)
  | statement? => do
    let l ← peek ls
    match l.kind with
    | .comment =>
      let _ ← advance ls
      pure none
    | .keyword =>
      if l.content = "function" then
        let s ← call (declaration l.start)
        pure (some s)
      else fail .expectedStatement l
    | .exclamation => some <$> expressionStatement ls l.start
    | .word =>
      if l.content.toList.head? = some '$' then some <$> expressionStatement ls l.start
      else some <$> command ls l.start
    | _ => fail .expectedStatement l
  | declaration place => do
    let keyword ← advance ls
    if (← get).inFunction then fail .nestedFunction keyword
    else
      let name ← identifier ls .whitespace
      let _ ← take ls .leftParen .whitespace
      let params ← parameters ls
      let _ ← take ls .leftBrace .layout
      let body ← call body
      let _ ← take ls .rightBrace .nothing
      pure (.declaration place name params body)
  | body => fun w => do
    let (statements, w') ← call (statementsFrom true []) (w.inside true)
    pure (statements, w'.inside false)

theorem Clause.continuous_step : Continuous (Clause.step ls) := by
  intro call called hcall c
  cases c with
  | statementsFrom inBody found =>
    refine .after _ fun _ => .after _ ?_
    rintro (_ | semicolon)
    · refine .after _ fun l => ?_
      split
      · exact .const _
      · exact .const _
      · exact .const _
      · refine .bind (hcall statement?) ?_
        rintro (_ | s)
        · exact hcall _
        · exact hcall _
    · exact hcall _
  | statement? =>
    refine .after _ fun l => ?_
    cases l.kind with
    | keyword => exact .ite (.bind (hcall (declaration l.start)) fun _ => .const _) (.const _)
    | _ => exact .const _
  | declaration place =>
    refine .after _ fun keyword => .after _ fun w => .ite (.const _) ?_
    refine .after _ fun name => .after _ fun _ => .after _ fun params => .after _ fun _ => ?_
    exact .bind (hcall body) fun _ => .const _
  | body => exact .around _ _ (hcall (statementsFrom true []))

noncomputable def Clause.walk (c : Clause) : Walker c.Answer := fix (Clause.step ls) c

theorem Clause.walk_eq (c : Clause) : c.walk ls = Clause.step ls (Clause.walk ls) c :=
  fix_eq (Clause.continuous_step ls) c

noncomputable def statementsFrom (inBody : Bool) (found : List Statement) : Walker (List Statement) :=
  (Clause.statementsFrom inBody found).walk ls

noncomputable def statement? : Walker (Option Statement) := Clause.statement?.walk ls

noncomputable def declaration (place : Location) : Walker Statement :=
  (Clause.declaration place).walk ls

noncomputable def body : Walker (List Statement) := Clause.body.walk ls

noncomputable def script : Walker Script := statementsFrom ls false []

/-! ## Commands and expressions, imitated -/

variable {ls} {inFunction : Bool} (hends : Ends ls)

include hends

theorem imitates_operand : Imitates ls 0 inFunction (operand ls) Parser.operand :=
  imitates_operandWithin hends Parser.maxDepth (Nat.zero_add _)

theorem imitates_terminator : Imitates ls 0 inFunction (terminator ls) Parser.terminator := by
  have htaken : Imitates ls 0 inFunction (advance ls >>= fun _ => pure ())
      (Parser.advance >>= fun _ => pure ()) :=
    imitates_bind imitates_advance fun _ => imitates_pure ()
  unfold terminator Parser.terminator
  apply imitates_bind (imitates_skip hends _)
  intro _
  apply imitates_bind imitates_peek
  intro l
  cases l.kind with
  | semicolon => exact htaken
  | newLine => exact htaken
  | comment => exact htaken
  | endOfFile => exact imitates_pure ()
  | rightBrace => exact imitates_pure ()
  | _ => exact imitates_fail .missingTerminator l

theorem imitates_command (place : Location) :
    Imitates ls 0 inFunction (command ls place) (Parser.command place) := by
  unfold command Parser.command
  apply imitates_bind imitates_advance
  intro name
  apply imitates_bind (imitates_argumentsFrom hends (imitates_operand hends) Parser.reads_operand [])
  intro args
  exact imitates_bind (imitates_terminator hends) fun _ => imitates_pure _

theorem imitates_expressionStatement (place : Location) :
    Imitates ls 0 inFunction (expressionStatement ls place) (Parser.expressionStatement place) := by
  unfold expressionStatement Parser.expressionStatement
  apply imitates_bind (imitates_expression hends (imitates_operand hends))
  intro e
  exact imitates_bind (imitates_terminator hends) fun _ => imitates_pure _

/-! ## Parameters, imitated -/

theorem imitates_identifier (mode : Skip) :
    Imitates ls 0 inFunction (identifier ls mode) (Parser.identifier mode) := by
  unfold identifier Parser.identifier
  apply imitates_bind (imitates_peekPast mode)
  intro ahead
  apply imitates_bind (imitates_tryTakeIf hends _ _)
  rintro (_ | l)
  · exact imitates_fail .expectedIdentifier ahead
  · exact imitates_pure l.content

theorem imitates_parameter : Imitates ls 0 inFunction (parameter ls) Parser.parameter := by
  unfold parameter Parser.parameter
  apply imitates_bind (imitates_identifier hends _)
  intro type
  exact imitates_bind (imitates_identifier hends _) fun name => imitates_pure _

omit hends in
/-- A parameter and those that follow it, behind the ones that were read. -/
def parametersOnto (params : List Parameter) : Parser (List Parameter) := do
  let p ← Parser.parameter
  Parser.manyBehind Parser.furtherParameter? (params ++ [p])

omit hends in
theorem further_apply (params : List Parameter) {c : Cursor} (hc : c.Closed) :
    Parser.manyBehind Parser.furtherParameter? params c =
      (Parser.tryTake .comma .layout >>= fun o =>
        match o with
        | some _ => parametersOnto params
        | none => pure params) c := by
  rw [Parser.manyBehind_apply Parser.reads_furtherParameter?.progress params hc]
  unfold Parser.furtherParameter?
  rw [bind_assoc]
  refine congrFun (bind_congr fun o => ?_) c
  cases o with
  | none => rfl
  | some comma => exact bind_map_left _ _ _

omit hends in
theorem parameters_eq :
    Parser.parameters = (do
      match ← Parser.tryTake .rightParen .layout with
      | some _ => pure []
      | none =>
        let params ← parametersOnto []
        let _ ← Parser.take .rightParen .layout
        pure params) := by
  unfold Parser.parameters parametersOnto Parser.manyBehind
  refine bind_congr fun o => ?_
  cases o with
  | some close => rfl
  | none => simp only [map_eq_pure_bind, bind_assoc, pure_bind, List.nil_append, List.singleton_append]

theorem imitates_parametersFrom (params : List Parameter) :
    Imitates ls 0 inFunction (parametersFrom ls params) (parametersOnto params) := by
  refine imitates_of_shorter (fun params w c hlevel hshows ih => ?_) params
  rw [parametersFrom_eq]
  unfold parametersOnto
  apply meets_bind (imitates_parameter hends w c hlevel hshows)
  intro p w' c' hp hlevel' hshows'
  have hclosed : c.Closed := hshows.position.closed hends
  have hclosed' : c'.Closed := hshows'.position.closed hends
  rw [further_apply (params ++ [p]) hclosed']
  apply meets_bind (imitates_tryTake hends _ _ w' c' hlevel' hshows')
  rintro (_ | comma) w'' c'' hcomma hlevel'' hshows''
  · exact imitates_pure (params ++ [p]) w'' c'' hlevel'' hshows''
  · refine ih (params ++ [p]) w'' c'' ?_ hlevel'' hshows''
    obtain ⟨ts, htook, -⟩ := Parser.reads_parameter _ hclosed rfl hp
    obtain ⟨us, htook', hfound, -⟩ := Parser.takes_tryTake .layout (by decide) hclosed' rfl hcomma
    cases hfound
    have hahead := congrArg List.length (htook.trans htook').ahead
    simp only [List.length_append, List.length_cons] at hahead
    omega

theorem imitates_parameters : Imitates ls 0 inFunction (parameters ls) Parser.parameters := by
  rw [parameters_eq]
  unfold parameters
  apply imitates_bind (imitates_tryTake hends _ _)
  rintro (_ | close)
  · apply imitates_bind (imitates_parametersFrom hends [])
    intro params
    exact imitates_bind (imitates_take hends _ _) fun _ => imitates_pure params
  · exact imitates_pure []

/-! ## Statements and bodies, imitated -/

section

variable {declared : Lexeme → Parser Statement}
  (hdeclared : ∀ w c, w.Level 0 inFunction → w.Shows ls c →
    Meets ls 0 inFunction (declaration ls c.peek.start w)
      ((Parser.advance >>= fun _ => declared c.peek) c))

include hdeclared

theorem statement?_meets {w : Walk} {c : Cursor} (hlevel : w.Level 0 inFunction)
    (hshows : w.Shows ls c) (hkind : c.peek.kind ≠ .comment) :
    Meets ls 0 inFunction (statement? ls w) ((some <$> Parser.statement declared) c) := by
  rw [statement?, Clause.walk_eq, Clause.step]
  unfold Parser.statement
  rw [map_bind]
  apply meets_bind (imitates_peek w c hlevel hshows)
  rintro l w' c' hpeek hlevel' hshows'
  cases hpeek
  cases hl : c.peek.kind with
  | comment => exact absurd hl hkind
  | keyword =>
    dsimp only
    split
    · rw [map_eq_pure_bind]
      apply meets_bind (hdeclared w' c hlevel' hshows')
      intro s w'' c'' _ hlevel'' hshows''
      exact imitates_pure (some s) w'' c'' hlevel'' hshows''
    · exact imitates_fail .expectedStatement c.peek w' c hlevel' hshows'
  | exclamation =>
    exact imitates_map (imitates_expressionStatement hends c.peek.start) w' c hlevel' hshows'
  | word =>
    dsimp only
    split
    · exact imitates_map (imitates_expressionStatement hends c.peek.start) w' c hlevel' hshows'
    · exact imitates_map (imitates_command hends c.peek.start) w' c hlevel' hshows'
  | _ => exact imitates_fail .expectedStatement c.peek w' c hlevel' hshows'

omit hends hdeclared in
theorem statement?_apply (declared : Lexeme → Parser Statement) (inBody : Bool) {c : Cursor} (hkind : c.peek.kind.isSeparator = false) :
    Parser.statement? inBody declared c =
      (match c.peek.kind, inBody with
        | .endOfFile, true => Parser.fail (.expected .rightBrace) c.peek
        | .endOfFile, false => pure none
        | .rightBrace, true => pure none
        | _, _ => some <$> Parser.statement declared : Parser (Option Statement)) c := by
  unfold Parser.statement?
  rw [Parser.bind_apply]
  dsimp only [Parser.skipWhile]
  rw [Cursor.skipWhile_of_not hkind]
  rfl

omit hends hdeclared in
/-- Separators before the next statement do not matter. -/
theorem statements_of_skipWhile {inBody : Bool}
    (hprogress : Parser.Progresses (Parser.statement? inBody declared)) (found : List Statement)
    {c d : Cursor} (hc : c.Closed) (hd : d.Closed)
    (h : c.skipWhile LexemeKind.isSeparator = d.skipWhile LexemeKind.isSeparator) :
    Parser.manyBehind (Parser.statement? inBody declared) found c =
      Parser.manyBehind (Parser.statement? inBody declared) found d := by
  have hstep : Parser.statement? inBody declared c = Parser.statement? inBody declared d := by
    unfold Parser.statement?
    rw [Parser.bind_apply, Parser.bind_apply]
    dsimp only [Parser.skipWhile]
    rw [h]
  rw [Parser.manyBehind_apply hprogress found hc, Parser.manyBehind_apply hprogress found hd,
    Parser.bind_apply, Parser.bind_apply, hstep]

omit hends hdeclared in
theorem tryTake_next (kind : LexemeKind) (c : Cursor) :
    Parser.tryTake kind .nothing c =
      .ok (if c.peek.kind == kind then (some c.peek, c.advance) else (none, c)) := by
  unfold Parser.tryTake Cursor.tryTake
  rw [Cursor.tryTakeIf_eq, Cursor.peekPast_eq]
  rw [Cursor.skipWhile_of_not (rfl : Skip.nothing.skips c.peek.kind = false)]

omit hends hdeclared in
/-- Layout and one semicolon may be passed over before the next statement. -/
theorem statements_steps {inBody : Bool}
    (hprogress : Parser.Progresses (Parser.statement? inBody declared)) (found : List Statement)
    {c : Cursor} (hc : c.Closed) :
    Parser.manyBehind (Parser.statement? inBody declared) found c =
      (do
        Parser.skip .layout
        let _ ← Parser.tryTake .semicolon .nothing
        Parser.manyBehind (Parser.statement? inBody declared) found) c := by
  obtain ⟨skipped, -, htook⟩ := Cursor.took_skipWhile Skip.layout.skips c
  have hlayout := Cursor.skipWhile_skipWhile
    (fun kind (h : Skip.layout.skips kind) => show kind.isSeparator from by revert h; cases kind <;> decide) c
  rw [statements_of_skipWhile hprogress found hc (htook.closed hc) hlayout.symm, Parser.bind_apply]
  dsimp only [Parser.skip]
  generalize c.skipWhile Skip.layout.skips = d at htook
  rw [Parser.bind_apply, tryTake_next]
  cases hkind : d.peek.kind == .semicolon with
  | false => rfl
  | true =>
    have hsemicolon := beq_iff_eq.mp hkind
    have htook' := Cursor.took_advance (htook.closed hc) (by rw [hsemicolon]; decide)
    refine statements_of_skipWhile hprogress found (htook.closed hc) (htook'.closed (htook.closed hc)) ?_
    exact Cursor.skipWhile_advance (by rw [hsemicolon]; rfl)

omit hends hdeclared in
theorem statement?_comment {w : Walk} {c : Cursor} (hlevel : w.Level 0 inFunction)
    (hshows : w.Shows ls c) (hkind : c.peek.kind = .comment) :
    Meets ls 0 inFunction (statement? ls w) ((Parser.advance >>= fun _ => pure none) c) := by
  rw [statement?, Clause.walk_eq, Clause.step, bind_apply, peek_apply hshows]
  dsimp only
  rw [hkind]
  exact imitates_bind imitates_advance (fun _ => imitates_pure none) w c hlevel hshows

/-- Where the next statement is no comment, it is read, and then the others. -/
theorem found_meets {inBody : Bool}
    (hprogress : Parser.Progresses (Parser.statement? inBody declared)) {found : List Statement}
    {w : Walk} {c : Cursor} (hlevel : w.Level 0 inFunction) (hshows : w.Shows ls c)
    (hcomment : c.peek.kind ≠ .comment)
    (hstatement : Parser.statement? inBody declared c = (some <$> Parser.statement declared) c)
    (hothers : ∀ s w' c', c'.ahead.length < c.ahead.length → w'.Level 0 inFunction →
      w'.Shows ls c' → Meets ls 0 inFunction (statementsFrom ls inBody (found ++ [s]) w')
        (Parser.manyBehind (Parser.statement? inBody declared) (found ++ [s]) c')) :
    Meets ls 0 inFunction
      ((do
        match ← statement? ls with
        | some s => statementsFrom ls inBody (found ++ [s])
        | none => statementsFrom ls inBody found : Walker (List Statement)) w)
      (((some <$> Parser.statement declared) >>= fun o => o.elim (pure found) fun s =>
        Parser.manyBehind (Parser.statement? inBody declared) (found ++ [s])) c) := by
  apply meets_bind (statement?_meets hends hdeclared hlevel hshows hcomment)
  rintro (_ | s) w' c' hr hlevel' hshows'
  · rw [map_eq_pure_bind, Parser.bind_apply] at hr
    rcases hs : Parser.statement declared c with e | ⟨s, c''⟩
    · rw [hs] at hr
      exact nomatch hr
    · rw [hs] at hr
      exact nomatch hr
  · have hclosed : c.Closed := hshows.position.closed hends
    exact hothers s w' c' (hprogress.shorter hclosed (hstatement.trans hr)).2 hlevel' hshows'

theorem imitates_statementsFrom {inBody : Bool}
    (hprogress : Parser.Progresses (Parser.statement? inBody declared)) (found : List Statement) :
    Imitates ls 0 inFunction (statementsFrom ls inBody found)
      (Parser.manyBehind (Parser.statement? inBody declared) found) := by
  refine imitates_of_shorter (fun found w c hlevel hshows ih => ?_) found
  have hc : c.Closed := hshows.position.closed hends
  have hlayout := Cursor.skips_peek_skipWhile (skips_endOfFile .layout) hc
  obtain ⟨skipped, -, htook⟩ := Cursor.took_skipWhile Skip.layout.skips c
  have hfewer := htook.length_le
  rw [statementsFrom, Clause.walk_eq, Clause.step, statements_steps hprogress found hc]
  apply meets_bind (imitates_skip hends _ w c hlevel hshows)
  intro _ w₁ d hskip hlevel₁ hshows₁
  cases hskip
  generalize c.skipWhile Skip.layout.skips = d at *
  have hd : d.Closed := htook.closed hc
  apply meets_bind (imitates_tryTake hends _ _ w₁ d hlevel₁ hshows₁)
  intro o w₂ d' htake hlevel₂ hshows₂
  rw [tryTake_next] at htake
  split at htake
  · rename_i hkind
    cases htake
    rw [beq_iff_eq] at hkind
    have hshorter := Cursor.advance_shorter hd (by rw [hkind]; decide)
    exact ih found w₂ d.advance (hshorter.trans_le hfewer) hlevel₂ hshows₂
  · rename_i hkind
    cases htake
    dsimp only
    rw [bind_apply, peek_apply hshows₂]
    dsimp only
    by_cases hcomment : d.peek.kind = .comment
    · have hend : d.peek.kind ≠ .endOfFile := by rw [hcomment]; decide
      have hshorter := Cursor.advance_shorter hd hend
      have hpassed : Parser.manyBehind (Parser.statement? inBody declared) found d =
          ((Parser.advance >>= fun _ => pure none) >>= fun _ : Option Statement =>
            Parser.manyBehind (Parser.statement? inBody declared) found) d :=
        statements_of_skipWhile hprogress found hd ((Cursor.took_advance hd hend).closed hd)
          (Cursor.skipWhile_advance (by rw [hcomment]; rfl))
      rw [hpassed, hcomment]
      apply meets_bind (statement?_comment hlevel₂ hshows₂ hcomment)
      intro o w₃ d' hr hlevel₃ hshows₃
      cases hr
      exact ih found w₃ d.advance (hshorter.trans_le hfewer) hlevel₃ hshows₃
    · have hseparator : d.peek.kind.isSeparator = false := by
        revert hlayout hkind hcomment
        cases d.peek.kind <;> decide
      have hothers (s : Statement) (w₃ : Walk) (d' : Cursor)
          (hshorter : d'.ahead.length < d.ahead.length) :=
        ih (found ++ [s]) w₃ d' (hshorter.trans_le hfewer)
      have hfound := fun hstatement =>
        found_meets hends hdeclared hprogress hlevel₂ hshows₂ hcomment hstatement hothers
      have happly := statement?_apply declared inBody hseparator
      rw [Parser.manyBehind_apply hprogress found hd, Parser.bind_apply, happly, ← Parser.bind_apply]
      cases hl : d.peek.kind with
      | endOfFile =>
        cases inBody with
        | true => exact imitates_fail _ _ w₂ d hlevel₂ hshows₂
        | false => exact imitates_pure found w₂ d hlevel₂ hshows₂
      | rightBrace =>
        cases inBody with
        | true => exact imitates_pure found w₂ d hlevel₂ hshows₂
        | false =>
          rw [hl] at happly
          exact hfound happly
      | _ =>
        rw [hl] at happly
        exact hfound happly

end

/-! ## Declarations and scripts, imitated -/

omit hends in
theorem nestedDeclaration_meets {w : Walk} {c : Cursor} (hlevel : w.Level 0 true)
    (hshows : w.Shows ls c) :
    Meets ls 0 true (declaration ls c.peek.start w)
      ((Parser.advance >>= fun _ => Parser.fail .nestedFunction c.peek) c) := by
  rw [declaration, Clause.walk_eq, Clause.step]
  apply meets_bind (imitates_advance w c hlevel hshows)
  intro keyword w' c' hkeyword hlevel' hshows'
  cases hkeyword
  rw [get_bind_apply, if_pos hlevel'.inFunction]
  exact imitates_fail .nestedFunction c.peek w' c.advance hlevel' hshows'

/-- The flag is up in a body only. -/
theorem imitates_body : Imitates ls 0 false (body ls) Parser.body := by
  intro w c hlevel hshows
  have hstatements := imitates_statementsFrom hends
    (fun w c hlevel hshows => nestedDeclaration_meets hlevel hshows)
    (fun l => Parser.progress_statement? Parser.reads_nestedFunction true l) []
    (w.inside true) c ⟨hlevel.nesting, rfl, hlevel.deepest⟩
    ⟨hshows.index, hshows.position, hshows.marks, hshows.checkpoints⟩
  rw [Parser.manyBehind_nil] at hstatements
  rw [body, Clause.walk_eq, Clause.step]
  change Meets ls 0 false
    ((statementsFrom ls true [] (w.inside true)).bind fun r => some (r.1, r.2.inside false))
    (Parser.many (Parser.statement? true (Parser.fail .nestedFunction)) c)
  rcases hr : Parser.many (Parser.statement? true (Parser.fail .nestedFunction)) c with e | ⟨ss, c'⟩
  · rw [hr] at hstatements
    obtain ⟨w', hw, hlevel'⟩ := hstatements
    rw [hw]
    exact ⟨w'.inside false, rfl, hlevel'.nesting, rfl, hlevel'.deepest⟩
  · rw [hr] at hstatements
    obtain ⟨w', hw, hlevel', hshows'⟩ := hstatements
    rw [hw]
    exact ⟨w'.inside false, rfl, ⟨hlevel'.nesting, rfl, hlevel'.deepest⟩,
      hshows'.index, hshows'.position, hshows'.marks, hshows'.checkpoints⟩

theorem declaration_meets {w : Walk} {c : Cursor} (hlevel : w.Level 0 false)
    (hshows : w.Shows ls c) :
    Meets ls 0 false (declaration ls c.peek.start w)
      ((Parser.advance >>= fun _ => Parser.declaration c.peek) c) := by
  rw [declaration, Clause.walk_eq, Clause.step]
  apply meets_bind (imitates_advance w c hlevel hshows)
  intro keyword w' c' hkeyword hlevel' hshows'
  cases hkeyword
  rw [get_bind_apply, if_neg (Bool.not_eq_true _ ▸ hlevel'.inFunction)]
  unfold Parser.declaration
  suffices h : Imitates ls 0 false _ _ from h w' c.advance hlevel' hshows'
  apply imitates_bind (imitates_identifier hends _)
  intro name
  apply imitates_bind (imitates_take hends _ _)
  intro _
  apply imitates_bind (imitates_parameters hends)
  intro params
  apply imitates_bind (imitates_take hends _ _)
  intro _
  apply imitates_bind (imitates_body hends)
  intro statements
  exact imitates_bind (imitates_take hends _ _) fun _ => imitates_pure _

theorem imitates_script : Imitates ls 0 false (script ls) Parser.script := by
  have hstatements := imitates_statementsFrom hends
    (fun w c hlevel hshows => declaration_meets hends hlevel hshows)
    (fun l => Parser.progress_statement? Parser.reads_declaration false l) []
  rw [Parser.manyBehind_nil] at hstatements
  exact hstatements

end Walker
end CommandScript
