import CommandScript.Proofs.Parser.Pairing
import CommandScript.Proofs.Parser.Statements

/-!
Every production does the same on two sources that are in step: one lemma for each, from the rules for
the ways to make parsers, up to the statements of a script.
-/

namespace CommandScript
set_option autoImplicit false

namespace Parser

variable {P : Pairing} {l m : Lexeme}

/-! ## Expressions -/

theorem picks_operator : P.Picks fun l => (Operator.ofKind? l.kind).isSome := by
  refine ⟨fun h => ?_, fun {l} hl => ?_⟩
  · rw [P.kind_eq h]
  · revert hl
    cases l.kind <;> simp [Operator.ofKind?, LexemeKind.isIdle]

/-- Words can be told apart by what they say. -/
theorem picks_word (test : String → Bool) : P.Picks fun l => l.kind == .word && test l.content := by
  refine ⟨fun {l m} h => ?_, fun {l} hl => ?_⟩
  · rw [P.kind_eq h]
    by_cases hword : l.kind = .word
    · rw [P.content_eq h (.inl hword)]
    · rw [beq_false_of_ne hword]
      rfl
  · rw [Bool.and_eq_true, beq_iff_eq] at hl
    rw [hl.1]
    rfl

theorem kind_of_isNumber (h : isNumber l) : l.kind = .word := by
  rw [isNumber, Bool.and_eq_true, beq_iff_eq] at h
  exact h.1

theorem tracks_negativeNumber? (hsame : P.same l m) (hminus : l.kind = .minus) :
    P.Follows (P.At l m) id negativeNumber? negativeNumber? P.beside := by
  unfold negativeNumber?
  apply tracks_bind tracks_mark
  intro _
  apply tracks_advance_bind hsame (by rw [hminus]; rfl)
  refine tracks_tryTakeIf_bind (picks_word fun w => (Number.ofWord? w).isSome) (by decide) ?_ ?_
  · exact tracks_bind tracks_rollback fun _ => tracks_pure rfl
  · intro w w' hsame hnumber
    apply tracks_bind tracks_commit
    intro _
    exact tracks_pure (by rw [P.content_eq hsame (.inl (kind_of_isNumber hnumber))]; rfl)

theorem tracks_argumentSeparator (isFirst : Bool) :
    P.Tracks id (argumentSeparator isFirst) (argumentSeparator isFirst) := by
  unfold argumentSeparator
  apply tracks_bind tracks_skip
  intro _
  cases isFirst with
  | true => exact tracks_pure rfl
  | false =>
    refine tracks_tryTakeIf_bind (picks_kind rfl) (by decide) ?_ ?_
    · exact tracks_skip
    · exact fun _ _ _ _ => tracks_skip

section

variable {operand : Parser (Option Expr)} (hoperand : P.Tracks id operand operand)

include hoperand

theorem tracks_linksFrom (n : Nat) (links : List Link) :
    P.Tracks id (linksFrom operand n links) (linksFrom operand n links) := by
  induction n generalizing links with
  | zero =>
    unfold linksFrom
    refine tracks_tryTakeIf_bind picks_operator (by decide) (tracks_pure rfl) ?_
    exact fun l m hsame _ => tracks_fail _ fun _ => hsame
  | succ n ih =>
    unfold linksFrom
    refine tracks_tryTakeIf_bind picks_operator (by decide) (tracks_pure rfl) ?_
    intro sign sign' hsame _
    dsimp only
    rw [P.kind_eq hsame]
    cases Operator.ofKind? sign.kind with
    | none => exact tracks_fail _ fun _ => hsame
    | some op =>
      apply tracks_bind tracks_skip
      intro _
      apply tracks_bind hoperand
      intro o
      cases o with
      | none => exact tracks_peek_bind fun l m hmeets => tracks_fail _ hmeets.same_of_strict
      | some e => exact ih _

theorem tracks_expression? : P.Tracks id (expression? operand) (expression? operand) := by
  unfold expression?
  apply tracks_peek_bind
  intro start start' hmeets
  apply Pairing.Follows.at
  apply tracks_bind hoperand
  intro o
  cases o with
  | none => exact tracks_pure rfl
  | some first =>
    apply tracks_bind (tracks_linksFrom hoperand maxDepth _)
    intro links
    dsimp only [id]
    cases Chain.resolve links with
    | none => exact tracks_fail _ hmeets.same_of_strict
    | some e =>
      dsimp only
      split
      · exact tracks_fail _ hmeets.same_of_strict
      · exact tracks_pure rfl

theorem tracks_expression : P.Tracks id (expression operand) (expression operand) := by
  unfold expression
  apply tracks_bind (tracks_expression? hoperand)
  intro o
  cases o with
  | none => exact tracks_peek_bind fun l m hmeets => tracks_fail _ hmeets.same_of_strict
  | some e => exact tracks_pure rfl

theorem tracks_argument? (isFirst : Bool) :
    P.Tracks id (argument? operand isFirst) (argument? operand isFirst) := by
  rw [argument?_eq]
  have hbody : P.Tracks (Option.map id)
      (argumentSeparator isFirst >>= fun _ => expression? operand)
      (argumentSeparator isFirst >>= fun _ => expression? operand) := by
    rw [Option.map_id]
    exact tracks_bind (tracks_argumentSeparator isFirst) fun _ => tracks_expression? hoperand
  have hattempt := tracks_attempt (fun _ _ h => P.mark h) hbody
  rwa [Option.map_id] at hattempt

theorem tracks_arguments (hreads : Reads operand (Optionally Expr.Yields)) :
    P.Tracks id (arguments operand) (arguments operand) := by
  unfold arguments
  apply tracks_bind (tracks_argument? hoperand true)
  intro o
  cases o with
  | none => exact tracks_pure rfl
  | some first =>
    have hprogress : Progresses (argument? operand false) :=
      (reads_argument?_ne_nil hreads false).progress
    have hstep : P.Tracks (Option.map id) (argument? operand false) (argument? operand false) :=
      Option.map_id ▸ tracks_argument? hoperand false
    have hmany := tracks_many (fun _ _ h => P.closed (P.past_of_beside h)) hprogress hprogress
      fun c d h => (hstep c d h).step
    rw [List.map_id_fun] at hmany
    exact tracks_bind hmany fun others => tracks_pure rfl

/-! ## Operands -/

theorem tracks_wordOperand (hsame : P.same l m) (hword : l.kind = .word) :
    P.Tracks id (wordOperand operand l) (wordOperand operand m) := by
  unfold wordOperand
  rw [P.content_eq hsame (.inl hword)]
  split
  · exact tracks_pure rfl
  · refine tracks_tryTakeIf_bind (picks_kind rfl) (by decide) (tracks_pure rfl) fun _ _ _ _ => ?_
    apply tracks_bind tracks_skip
    intro _
    exact tracks_bind (tracks_expression hoperand) fun value => tracks_pure rfl
  · exact tracks_fail _ fun _ => hsame

theorem tracks_markedOperand (hreads : Reads operand (Optionally Expr.Yields)) :
    P.Tracks id (markedOperand operand) (markedOperand operand) := by
  unfold markedOperand
  apply tracks_peek_bind
  intro w w' hmeets
  have hname : (w'.kind == .word && isName w'.content) = (w.kind == .word && isName w.content) :=
    (picks_word isName).wanted_eq hmeets
  rw [hname]
  split
  · rename_i hname
    rw [Bool.and_eq_true, beq_iff_eq] at hname
    have hidle : w.kind.isIdle = false := by rw [hname.1]; rfl
    have hsame := hmeets.same_of_left hidle
    rw [P.content_eq hsame (.inl hname.1)]
    apply tracks_advance_bind hsame hidle
    exact tracks_bind (tracks_arguments hoperand hreads) fun args => tracks_pure rfl
  · apply Pairing.Follows.at
    apply tracks_bind hoperand
    intro o
    cases o with
    | none => exact tracks_fail _ hmeets.same_of_strict
    | some e => exact tracks_pure rfl

omit hoperand in
/-- No operand begins at layout, at a comment or at the end. -/
theorem operandOver_of_idle {c : Cursor} (h : c.peek.kind.isIdle) :
    operandOver operand c = .ok (none, c) := by
  unfold operandOver
  rw [bind_apply]
  dsimp only [peek]
  cases hkind : c.peek.kind with
  | whitespace | newLine | comment | endOfFile => rfl
  | _ => exact nomatch hkind ▸ h

theorem tracks_operandOver_at (hreads : Reads operand (Optionally Expr.Yields))
    (hsame : P.same l m) :
    P.Follows (P.At l m) id (operandOver operand) (operandOver operand) P.beside := by
  unfold operandOver
  apply tracks_peek_bind_at
  rw [P.kind_eq hsame]
  cases hl : l.kind with
  | leftParen =>
    apply tracks_advance_bind hsame (by rw [hl]; rfl)
    apply tracks_bind tracks_skip
    intro _
    apply tracks_bind (tracks_expression hoperand)
    intro e
    exact tracks_take_bind rfl _ fun _ _ _ => tracks_pure rfl
  | quotedString =>
    apply tracks_advance_bind hsame (by rw [hl]; rfl)
    rw [P.unquote_eq hsame hl]
    cases Text.unquote? l.content with
    | none => exact tracks_fail _ fun _ => hsame
    | some s => exact tracks_pure rfl
  | keyword =>
    dsimp only
    rw [P.content_eq hsame (.inr hl)]
    split
    · exact tracks_advance_bind hsame (by rw [hl]; rfl) (tracks_pure rfl)
    · exact tracks_fail _ fun _ => hsame
  | word =>
    apply tracks_advance_bind hsame (by rw [hl]; rfl)
    exact tracks_map (tracks_wordOperand hoperand hsame hl) fun _ => rfl
  | exclamation =>
    apply tracks_advance_bind hsame (by rw [hl]; rfl)
    exact tracks_map (tracks_markedOperand hoperand hreads) fun _ => rfl
  | minus => exact tracks_bind (tracks_negativeNumber? hsame hl) fun o => tracks_pure rfl
  | _ => exact tracks_pure_at rfl

theorem tracks_operandOver (hreads : Reads operand (Optionally Expr.Yields)) :
    P.Tracks id (operandOver operand) (operandOver operand) := by
  intro c d hcd
  rcases P.peek hcd with hsame | ⟨-, hc, hd⟩
  · exact tracks_operandOver_at hoperand hreads hsame c d ⟨hcd, rfl, rfl⟩
  · rw [operandOver_of_idle hc, operandOver_of_idle hd]
    exact ⟨d, rfl, hcd⟩

end

theorem tracks_operandWithin (n : Nat) : P.Tracks id (operandWithin n) (operandWithin n) := by
  induction n with
  | zero =>
    intro c d hcd
    have hmeets : P.Meets c.peek d.peek := P.peek hcd
    have hfail : P.Tracks (id : Option Expr → Option Expr) (fail .tooDeep c.peek)
        (fail .tooDeep d.peek) := tracks_fail _ hmeets.same_of_strict
    exact hfail c d hcd
  | succ n ih => exact tracks_operandOver ih (reads_operandWithin n)

theorem tracks_operand : P.Tracks id operand operand := tracks_operandWithin maxDepth

/-! ## Statements -/

theorem tracks_command (hsame : P.same l m) (hword : l.kind = .word) :
    P.Follows (P.At l m) P.moved (command l.start) (command m.start) P.past := by
  have hidle : l.kind.isIdle = false := by rw [hword]; rfl
  unfold command
  apply tracks_advance_bind hsame hidle
  apply tracks_bind (tracks_arguments tracks_operand reads_operand)
  intro args
  refine tracks_bind (fun _ _ h => P.terminator h) fun _ => tracks_pure ?_
  rw [P.moved_command l.content args hsame hidle, P.content_eq hsame (.inl hword)]
  rfl

theorem tracks_expressionStatement (hsame : P.same l m) (hidle : l.kind.isIdle = false) :
    P.Follows P.beside P.moved (expressionStatement l.start) (expressionStatement m.start)
      P.past := by
  unfold expressionStatement
  apply tracks_bind (tracks_expression tracks_operand)
  intro e
  refine tracks_bind (fun _ _ h => P.terminator h) fun _ => tracks_pure ?_
  exact (P.moved_expression e hsame hidle).symm

/-- What stands behind the word `function` is read in the same way. -/
def TracksDeclaration (P : Pairing) (declaration : Lexeme → Parser Statement) : Prop :=
  ∀ l m, P.same l m → l.kind.isIdle = false →
    P.Follows P.beside P.moved (declaration l) (declaration m) P.past

section

variable {declaration : Lexeme → Parser Statement}
  (hdeclaration : TracksDeclaration P declaration)

include hdeclaration

/-- A statement begins in both sources with the same lexeme. -/
theorem tracks_statement (hsame : P.same l m) :
    P.Follows (P.At l m) P.moved (statement declaration) (statement declaration) P.past := by
  unfold statement
  apply tracks_peek_bind_at
  rw [P.kind_eq hsame]
  cases hl : l.kind with
  | keyword =>
    have hidle : l.kind.isIdle = false := by rw [hl]; rfl
    dsimp only
    rw [P.content_eq hsame (.inr hl)]
    split
    · exact tracks_advance_bind hsame hidle (hdeclaration l m hsame hidle)
    · exact tracks_fail _ fun _ => hsame
  | exclamation => exact (tracks_expressionStatement hsame (by rw [hl]; rfl)).at l m
  | word =>
    dsimp only
    rw [P.content_eq hsame (.inl hl)]
    split
    · exact (tracks_expressionStatement hsame (by rw [hl]; rfl)).at l m
    · exact tracks_command hsame hl
  | _ => exact tracks_fail _ fun _ => hsame

omit hdeclaration in
/-- At the end of a source there is no further statement. -/
theorem statement?_of_end {c : Cursor} (inBody : Bool)
    (h : (c.skipWhile LexemeKind.isSeparator).peek.kind = .endOfFile) :
    statement? inBody declaration c =
      if inBody then .error (.ofLexeme (.expected .rightBrace) (c.skipWhile LexemeKind.isSeparator).peek)
      else .ok (none, c.skipWhile LexemeKind.isSeparator) := by
  unfold statement?
  rw [bind_apply]
  dsimp only [skipWhile]
  rw [bind_apply]
  dsimp only [peek]
  rw [h]
  cases inBody <;> rfl

theorem agree_statement? (inBody : Bool) {c d : Cursor}
    (hbeside : P.beside (c.skipWhile LexemeKind.isSeparator) (d.skipWhile LexemeKind.isSeparator))
    (hsame : P.same (c.skipWhile LexemeKind.isSeparator).peek
      (d.skipWhile LexemeKind.isSeparator).peek) :
    AgreeStep P.strict P.alike P.moved P.past P.beside (statement? inBody declaration c)
      (statement? inBody declaration d) := by
  have hstatement := tracks_statement hdeclaration hsame
  unfold statement?
  rw [bind_apply, bind_apply]
  dsimp only [skipWhile]
  generalize c.skipWhile LexemeKind.isSeparator = c at hbeside hsame hstatement ⊢
  generalize d.skipWhile LexemeKind.isSeparator = d at hbeside hsame hstatement ⊢
  have hrun : AgreeStep P.strict P.alike P.moved P.past P.beside ((some <$> statement declaration) c)
      ((some <$> statement declaration) d) := agreeStep_some (hstatement c d ⟨hbeside, rfl, rfl⟩)
  rw [bind_apply, bind_apply]
  dsimp only [peek]
  rw [P.kind_eq hsame]
  cases hl : c.peek.kind with
  | endOfFile =>
    cases inBody with
    | true => exact fun _ => ⟨_, rfl, P.fault _ hsame⟩
    | false => exact ⟨d, rfl, hbeside⟩
  | rightBrace =>
    cases inBody with
    | true => exact ⟨d, rfl, hbeside⟩
    | false => exact hrun
  | _ => exact hrun

end

/-! ## Bodies and declarations -/

theorem progress_bodyStatement? : Progresses (statement? true (fail .nestedFunction)) :=
  fun l => progress_statement? reads_nestedFunction true l

theorem tracks_nestedFunction : TracksDeclaration P (fail .nestedFunction) :=
  fun _ _ hsame _ => tracks_fail _ fun _ => hsame

/-- A body ends before its brace, and not where its source ends. -/
theorem tracks_body : P.Follows P.past (List.map P.moved) body body P.beside := by
  apply tracks_many (fun _ _ h => P.closed h) progress_bodyStatement? progress_bodyStatement?
  intro c d h
  rcases P.separators h with ⟨hbeside, hsame⟩ | ⟨hstrict, hend⟩
  · exact agree_statement? tracks_nestedFunction true hbeside hsame
  · rw [statement?_of_end true hend]
    exact fun h => absurd h hstrict

theorem identifier_eq (mode : Skip) :
    identifier mode =
      need (fun l => l.kind == .word) .expectedIdentifier mode >>= fun l => pure l.content := by
  unfold identifier need
  simp only [bind_assoc]
  refine bind_congr fun _ => bind_congr fun o => ?_
  cases o <;> rfl

theorem tracks_identifier (mode : Skip) : P.Tracks id (identifier mode) (identifier mode) := by
  rw [identifier_eq]
  refine tracks_need_bind (picks_kind rfl) _ mode fun l m hsame hword => tracks_pure ?_
  exact P.content_eq hsame (.inl (beq_iff_eq.mp hword))

theorem tracks_parameter : P.Tracks id parameter parameter := by
  unfold parameter
  apply tracks_bind (tracks_identifier .layout)
  intro type
  exact tracks_bind (tracks_identifier .layout) fun name => tracks_pure rfl

theorem progress_furtherParameter? : Progresses furtherParameter? :=
  reads_furtherParameter?.progress

/-- The further parameters behind the `first` ones, and the closing bracket. -/
def parametersBehind (first : List Parameter) : Parser (List Parameter) := do
  let others ← many furtherParameter?
  let _ ← take .rightParen .layout
  pure (first ++ others)

theorem parametersBehind_apply (first : List Parameter) {c : Cursor} (hc : c.Closed) :
    parametersBehind first c =
      match furtherParameter? c with
      | .error e => .error e
      | .ok (none, c') => (take .rightParen .layout >>= fun _ => pure first) c'
      | .ok (some p, c') => parametersBehind (first ++ [p]) c' := by
  unfold parametersBehind
  rw [bind_apply, many_apply progress_furtherParameter? hc]
  rcases furtherParameter? c with e | ⟨_ | p, c'⟩
  · rfl
  · dsimp only
    rw [List.append_nil]
  · dsimp only
    rw [bind_apply]
    rcases many furtherParameter? c' with e | ⟨ps, c''⟩
    · rfl
    · simp only [Except.map, List.append_assoc, List.singleton_append]

section

variable {c d : Cursor}

theorem agree_furtherParameter? (h : P.beside c d)
    (hskip : P.beside (c.skipWhile Skip.layout.skips) (d.skipWhile Skip.layout.skips)) :
    Agree P.strict P.alike (Option.map id) P.beside (furtherParameter? c) (furtherParameter? d) := by
  unfold furtherParameter?
  refine agree_tryTakeIf (picks_kind rfl) h hskip (tracks_pure rfl) fun _ _ _ _ => ?_
  exact tracks_map tracks_parameter fun _ => rfl

theorem furtherParameter?_of_idle (hc : (c.peekPast .layout).kind.isIdle) :
    furtherParameter? c = .ok (none, c) := by
  have hcomma : tryTake .comma .layout c = .ok (none, c) :=
    tryTakeIf_of_not (beq_kind_of_idle rfl hc)
  unfold furtherParameter?
  rw [bind_apply, hcomma]
  rfl

theorem take_of_idle {kind : LexemeKind} {mode : Skip} (hkind : kind.isIdle = false)
    (hc : (c.peekPast mode).kind.isIdle) :
    take kind mode c = .error (.ofLexeme (.expected kind) (c.peekPast mode)) := by
  rw [take_eq]
  exact need_of_not _ (beq_kind_of_idle hkind hc)

/-- The closing bracket must be there, so the parameters end before the first source is idle. -/
theorem tracks_parametersBehind (first : List Parameter) :
    P.Tracks id (parametersBehind first) (parametersBehind first) := by
  intro c d h
  induction n : c.ahead.length using Nat.strongRecOn generalizing c d first with
  | _ n ih =>
    subst n
    obtain ⟨hc, hd⟩ := P.closed (P.past_of_beside h)
    have hclose : P.Tracks id (take .rightParen .layout >>= fun _ => pure first)
        (take .rightParen .layout >>= fun _ => pure first) :=
      tracks_take_bind rfl .layout fun _ _ _ => tracks_pure rfl
    rw [parametersBehind_apply first hc, parametersBehind_apply first hd]
    rcases P.search h with hskip | ⟨hstrict, hidle⟩
    · have hagree := agree_furtherParameter? h hskip
      rcases hr : furtherParameter? c with e | ⟨_ | p, c'⟩
      · rw [hr] at hagree
        intro hstrict
        obtain ⟨e', hd', halike⟩ := hagree hstrict
        exact ⟨e', by rw [hd'], halike⟩
      · rw [hr] at hagree
        obtain ⟨d', hd', hcd⟩ := hagree
        rw [hd']
        exact hclose c' d' hcd
      · rw [hr] at hagree
        obtain ⟨d', hd', hcd⟩ := hagree
        rw [hd']
        obtain ⟨-, hshorter⟩ := progress_furtherParameter?.shorter hc hr
        exact ih _ hshorter (first ++ [p]) c' d' hcd rfl
    · rw [furtherParameter?_of_idle hidle]
      dsimp only
      rw [bind_of_error (take_of_idle rfl hidle)]
      exact fun h => absurd h hstrict

theorem parameter_of_idle (hc : (c.peekPast .layout).kind.isIdle) :
    parameter c = .error (.ofLexeme .expectedIdentifier (c.peekPast .layout)) := by
  unfold parameter
  rw [identifier_eq]
  exact bind_of_error (bind_of_error (need_of_not _ (beq_kind_of_idle rfl hc)))

theorem parameters_of_idle (hc : (c.peekPast .layout).kind.isIdle) :
    parameters c = .error (.ofLexeme .expectedIdentifier (c.peekPast .layout)) := by
  have hclose : tryTake .rightParen .layout c = .ok (none, c) :=
    tryTakeIf_of_not (beq_kind_of_idle rfl hc)
  unfold parameters
  rw [bind_apply, hclose]
  exact bind_of_error (parameter_of_idle hc)

theorem tracks_parameters : P.Tracks id parameters parameters := by
  intro c d h
  rcases P.search h with hskip | ⟨hstrict, hidle⟩
  · have hfurther : P.Tracks id (parameter >>= fun first => parametersBehind [first])
        (parameter >>= fun first => parametersBehind [first]) :=
      tracks_bind tracks_parameter fun first => tracks_parametersBehind [first]
    exact agree_tryTakeIf (picks_kind rfl) h hskip hfurther fun _ _ _ _ => tracks_pure rfl
  · exact tracks_of_error (parameters_of_idle hidle) hstrict

end

theorem tracks_declaration : TracksDeclaration P declaration := by
  intro l m hsame hidle
  unfold declaration
  apply tracks_bind (tracks_identifier .whitespace)
  intro name
  refine tracks_take_bind rfl .whitespace fun _ _ _ => ?_
  apply tracks_bind tracks_parameters
  intro params
  refine tracks_take_bind rfl .layout fun _ _ _ => ?_
  have hbody : P.Follows P.beside (List.map P.moved) body body P.beside :=
    tracks_body.imp (fun _ _ h => P.past_of_beside h) fun _ _ h => h
  apply tracks_bind hbody
  intro statements
  refine tracks_take_bind rfl .nothing fun _ _ _ => ?_
  apply (tracks_pure _).imp (fun _ _ h => h) fun _ _ h => P.past_of_beside h
  exact (P.moved_declaration name params statements hsame hidle).symm

/-! ## Scripts -/

theorem progress_scriptStatement? : Progresses (statement? false declaration) :=
  fun l => progress_statement? reads_declaration false l

section

variable (hwhole : ∀ {c d}, P.past c d →
    P.beside (c.skipWhile LexemeKind.isSeparator) (d.skipWhile LexemeKind.isSeparator) ∧
      P.same (c.skipWhile LexemeKind.isSeparator).peek (d.skipWhile LexemeKind.isSeparator).peek)

include hwhole

/-- Two sources that are in step up to their ends are the same scripts. -/
theorem tracks_script : P.Follows P.past (List.map P.moved) script script P.beside := by
  apply tracks_many (fun _ _ h => P.closed h) progress_scriptStatement? progress_scriptStatement?
  intro c d h
  obtain ⟨hbeside, hsame⟩ := hwhole h
  exact agree_statement? tracks_declaration false hbeside hsame

theorem script_of_past {c d : Cursor} (h : P.past c d) :
    match (script c).map Prod.fst with
    | .ok ss => (script d).map Prod.fst = .ok (ss.map P.moved)
    | .error e => P.strict → ∃ e', (script d).map Prod.fst = .error e' ∧ P.alike e e' := by
  have hagree := tracks_script hwhole c d h
  rcases hr : script c with e | ⟨ss, c'⟩
  · rw [hr] at hagree
    intro hstrict
    obtain ⟨e', hd, halike⟩ := hagree hstrict
    exact ⟨e', by rw [hd]; rfl, halike⟩
  · rw [hr] at hagree
    obtain ⟨d', hd, -⟩ := hagree
    rw [hd]
    rfl

end

end Parser

end CommandScript
