import CommandScript.Proofs.Printing.Statements

/-!
Printed declarations. The parameters stand on one line between commas, and each statement of the
body on a line of its own behind four blanks, which the parser skips as it looks for the next
statement.
-/

namespace CommandScript
set_option autoImplicit false

open CommandScript.Parser

variable {strict : Prop} {cs mid rest next stop : List Char}

theorem toList_intercalate_cons (between s : String) (ss : List String) :
    (String.intercalate between (s :: ss)).toList =
      s.toList ++ ss.flatMap fun t => between.toList ++ t.toList := by
  induction ss generalizing s with
  | nil => simp
  | cons t ss ih => simp [String.intercalate_cons_cons, ih]

/-! ## The next statement -/

/-- What a printed statement begins with. -/
def LexemeKind.beginsStatement : LexemeKind → Bool
  | keyword | word | exclamation | leftParen => true
  | _ => false

theorem isRun_function : IsRun "function" := ⟨by decide, by simp; decide⟩

theorem tokens_function :
    tokens ("function".toList ++ ' ' :: rest) = ⟨.keyword, "function"⟩ :: tokens (' ' :: rest) :=
  tokens_run isRun_function (stopsAt_cons (by decide))

theorem Statement.toList_source_declaration (place : Location) (name : String)
    (params : List Parameter) (body : List Statement) :
    (declaration place name params body).source.toList ++ rest =
      "function".toList ++ ' ' :: (name.toList ++
        '(' :: ((String.intercalate ", " (params.map Parameter.source)).toList ++
          ')' :: ' ' :: '\x7b' :: '\n' :: ((sourceOfBody body).toList ++ '\x7d' :: rest))) := by
  simp [source, signature]

theorem Statement.front_source {s : Statement} (hwell : s.WellFormed) (hrest : Boundary rest) :
    (front (s.source.toList ++ rest)).kind.beginsStatement := by
  cases hwell with
  | @command place name args hname =>
    change (front ((name ++ Expr.sourceOfAll args).toList ++ rest)).kind.beginsStatement
    rw [String.toList_append, List.append_assoc,
      front_of_tokens (tokens_word hname (Expr.boundary_sourceOfAll args hrest))]
    rfl
  | @expression place e hwell hliteral =>
    change (front (e.bareSource.toList ++ rest)).kind.beginsStatement
    by_cases hbare : e.StandsAlone
    · rcases front_bareSource hbare hwell hrest with hfront | ⟨name, hfront⟩
      · rw [hfront]
        rfl
      · rw [hfront]
        rfl
    · obtain ⟨cs, hcs⟩ := exists_bracket hbare hliteral
      rw [hcs, front_symbol (rfl : LexemeKind.ofChar? '(' = some .leftParen)]
      rfl
  | declaration =>
    rw [Statement.toList_source_declaration, front_of_tokens tokens_function]
    rfl

theorem LexemeKind.isLayout_of_beginsStatement {kind : LexemeKind} (h : kind.beginsStatement) :
    kind.isLayout = false := by
  revert h
  cases kind <;> decide

theorem LexemeKind.isSeparator_of_beginsStatement {kind : LexemeKind} (h : kind.beginsStatement) :
    kind.isSeparator = false := by
  revert h
  cases kind <;> decide

/-- A line feed before a text separates statements. -/
theorem Skipped.ofLine {text : List Char} (hcs : cs = text ∨ cs = '\n' :: text)
    (h : Skipped LexemeKind.isSeparator text stop) : Skipped LexemeKind.isSeparator cs stop := by
  rcases hcs with rfl | rfl
  · exact h
  · exact .step tokens_newLine rfl h

namespace Parser

section

variable {declaration : Lexeme → Parser Statement} {P : Statement → Prop} {inBody : Bool}

theorem answers_statement? (hskipped : Skipped LexemeKind.isSeparator cs mid)
    (hbegins : (front mid).kind.beginsStatement)
    (h : Answers strict (statement declaration) mid stop P) :
    Answers strict (statement? inBody declaration) cs stop fun o => ∃ s, o = some s ∧ P s := by
  have hsome : Answers strict (some <$> statement declaration) mid stop fun o => ∃ s, o = some s ∧ P s :=
    h.map fun s hs => ⟨s, rfl, hs⟩
  unfold statement?
  refine (answers_skipWhile hskipped).bind fun _ _ => answers_peek_bind fun l hl => ?_
  rw [← Lexeme.kind_of_token hl] at hbegins
  split
  · rename_i hkind
    rw [hkind] at hbegins
    exact nomatch hbegins
  · rename_i hkind
    rw [hkind] at hbegins
    exact nomatch hbegins
  · rename_i hkind
    rw [hkind] at hbegins
    exact nomatch hbegins
  · exact hsome

theorem answers_statement?_brace (hskipped : Skipped LexemeKind.isSeparator cs ('\x7d' :: rest)) :
    Answers strict (statement? true declaration) cs ('\x7d' :: rest) (· = none) := by
  unfold statement?
  have hbrace : tokens ('\x7d' :: rest) = ⟨.rightBrace, "\x7d"⟩ :: tokens rest := tokens_symbol rfl
  refine (answers_skipWhile hskipped).bind fun _ _ => ?_
  refine answers_peek_front (front_of_tokens hbrace) fun l hkind _ => ?_
  simp only [hkind]
  exact answers_pure rfl

theorem answers_statement?_nil (hskipped : Skipped LexemeKind.isSeparator cs []) :
    Answers strict (statement? false declaration) cs [] (· = none) := by
  unfold statement?
  refine (answers_skipWhile hskipped).bind fun _ _ => ?_
  refine answers_peek_front front_nil fun l hkind _ => ?_
  simp only [hkind]
  exact answers_pure rfl

/-! ## Bodies -/

/-- Every statement but a declaration takes the end of its line with it. -/
theorem answers_statement_plain {s : Statement} (hs : s.Readable strict)
    (hplain : s.isDeclaration = false) (hline : EndsLine rest next) :
    Answers strict (statement declaration) (s.source.toList ++ rest) next
      (·.unplaced = s.unplaced) := by
  cases s with
  | command place name args =>
    change Answers strict _ ((name ++ Expr.sourceOfAll args).toList ++ rest) _ _
    rw [String.toList_append, List.append_assoc]
    refine (answers_statement_command hs hline).weaken ?_
    rintro _ ⟨place', rfl⟩
    rfl
  | expression place e =>
    refine (answers_statement_expression hs hline).weaken ?_
    rintro _ ⟨place', rfl⟩
    rfl
  | declaration => exact nomatch hplain

theorem toList_sourceOfBody_cons (s : Statement) (ss : List Statement) :
    (Statement.sourceOfBody (s :: ss)).toList ++ rest =
      List.replicate 4 ' ' ++
        (s.source.toList ++ '\n' :: ((Statement.sourceOfBody ss).toList ++ rest)) := by
  simp [Statement.sourceOfBody, List.replicate]

/-- The statements of a body are read up to the brace behind them. -/
theorem runs_body {ss : List Statement}
    (hss : ∀ s ∈ ss, s.Readable strict ∧ s.isDeclaration = false)
    (hcs : cs = (Statement.sourceOfBody ss).toList ++ '\x7d' :: rest ∨
      cs = '\n' :: ((Statement.sourceOfBody ss).toList ++ '\x7d' :: rest)) :
    Runs strict (statement? true declaration) (fun s s' => s'.unplaced = s.unplaced) ss cs
      ('\x7d' :: rest) := by
  induction ss generalizing cs with
  | nil =>
    refine .stop (answers_statement?_brace (.ofLine hcs (.stay ?_)))
    change (front ('\x7d' :: rest)).kind.isSeparator = false
    rw [front_symbol rfl]
    rfl
  | cons s ss ih =>
    rw [List.forall_mem_cons] at hss
    rw [toList_sourceOfBody_cons] at hcs
    have hline : EndsLine ('\n' :: ((Statement.sourceOfBody ss).toList ++ '\x7d' :: rest))
        ((Statement.sourceOfBody ss).toList ++ '\x7d' :: rest) := .inl rfl
    have hs : Answers strict (statement declaration) _ _ _ :=
      answers_statement_plain hss.1.1 hss.1.2 hline
    have hbegins := Statement.front_source hss.1.1.wellFormed hline.follows.boundary
    have hspace := stopsAt_isSpace (LexemeKind.isLayout_of_beginsStatement hbegins)
    have hskipped := Skipped.step (tokens_blanks (n := 3) hspace) (by rfl)
      (.stay (LexemeKind.isSeparator_of_beginsStatement hbegins))
    refine .step ?_ (ih hss.2 (.inl rfl))
    refine (answers_statement? (.ofLine hcs hskipped) hbegins hs).weaken ?_
    rintro _ ⟨s', rfl, hs'⟩
    exact ⟨s', rfl, hs'⟩

theorem answers_body {ss : List Statement}
    (hss : ∀ s ∈ ss, s.Readable strict ∧ s.isDeclaration = false) :
    Answers strict body ('\n' :: ((Statement.sourceOfBody ss).toList ++ '\x7d' :: rest))
      ('\x7d' :: rest) fun ss' => Statement.unplacedAll ss' = Statement.unplacedAll ss :=
  ((runs_body hss (.inr rfl)).answers (progress_statement? reads_nestedFunction true)).weaken
    fun _ hss => Statement.unplacedAll_eq hss

end

/-! ## Parameters -/

theorem answers_identifier {mode : Skip} {w : String} (hskipped : Skipped mode.skips cs mid)
    (ht : tokens mid = ⟨.word, w⟩ :: tokens stop) :
    Answers strict (identifier mode) cs stop (· = w) := by
  unfold identifier
  refine answers_peekPast_bind fun ahead => ?_
  refine (answers_tryTakeIf hskipped ht fun l hl => beq_iff_eq.mpr (Lexeme.kind_of_token hl)).bind ?_
  rintro o ⟨l, rfl, hl⟩
  exact answers_pure (Lexeme.content_of_token hl)

theorem answers_identifier_fault {mode : Skip} {P : String → Prop} (hstrict : ¬ strict)
    (hskipped : Skipped mode.skips cs mid) (hkind : (front mid).kind ≠ .word) :
    Answers strict (identifier mode) cs stop P := by
  unfold identifier
  refine answers_peekPast_bind fun ahead => ?_
  refine (answers_tryTakeIf_none hskipped fun l hl => ?_).bind ?_
  · rw [beq_eq_false_iff_ne, Lexeme.kind_of_token hl]
    exact hkind
  · rintro o rfl
    exact answers_fail hstrict _ ahead

/-- The text begins with a sign, as it does behind a parameter. -/
def BeginsSign (cs : List Char) : Prop :=
  ∃ c kind rest, cs = c :: rest ∧ LexemeKind.ofChar? c = some kind

theorem BeginsSign.boundary (h : BeginsSign rest) : Boundary rest := by
  obtain ⟨c, kind, cs, rfl, hkind⟩ := h
  exact stopsAt_cons (isWordChar_of_ofChar? hkind)

theorem BeginsSign.front_kind (h : BeginsSign rest) :
    (front rest).kind.isLayout = false ∧ (front rest).kind ≠ .word := by
  obtain ⟨c, kind, cs, rfl, hkind⟩ := h
  rw [front_symbol hkind]
  refine ⟨isLayout_of_ofChar? hkind, ?_⟩
  rintro rfl
  unfold LexemeKind.ofChar? at hkind
  split at hkind <;> exact nomatch hkind

/-- Without a name, or with a keyword for one, a parameter is none. -/
theorem answers_parameterName {p : Parameter} (hp : p.Readable strict) (hrest : BeginsSign rest) :
    Answers strict (identifier .layout) (' ' :: (p.name.toList ++ rest)) rest (· = p.name) := by
  by_cases hempty : p.name = ""
  · have hstrict : ¬ strict := fun hstrict => (hp.printable hstrict).nonempty hempty
    have hskipped : Skipped Skip.layout.skips (' ' :: rest) rest :=
      skipped_blank nofun hrest.front_kind.1
    rw [hempty]
    exact answers_identifier_fault hstrict hskipped hrest.front_kind.2
  · have hrun : IsRun p.name := ⟨hempty, hp.wellFormed.all⟩
    have hfront := front_of_tokens (tokens_run hrun hrest.boundary)
    have hblank : Skipped Skip.layout.skips (' ' :: (p.name.toList ++ rest)) (p.name.toList ++ rest) := by
      refine skipped_blank nofun ?_
      rw [hfront]
      rcases LexemeKind.ofWord_eq p.name with h | h <;> rw [h] <;> rfl
    cases hkeyword : LexemeKind.isKeyword p.name with
    | false =>
      have hword : IsWord p.name := { hrun with keyword := hkeyword }
      exact answers_identifier hblank (tokens_word hword hrest.boundary)
    | true =>
      have hstrict : ¬ strict :=
        fun hstrict => nomatch hkeyword.symm.trans (hp.printable hstrict).keyword
      refine answers_identifier_fault hstrict hblank ?_
      rw [hfront]
      intro hkind
      exact nomatch hkeyword.symm.trans (ofWord_eq_word.mp hkind)

theorem Parameter.toList_source (p : Parameter) :
    p.source.toList ++ rest = p.type.toList ++ ' ' :: (p.name.toList ++ rest) := by
  simp [Parameter.source]

theorem answers_parameter {p : Parameter} (hp : p.Readable strict) (hrest : BeginsSign rest)
    (hskipped : Skipped Skip.layout.skips cs (p.source.toList ++ rest)) :
    Answers strict parameter cs rest (· = p) := by
  have hboundary : Boundary (' ' :: (p.name.toList ++ rest)) := stopsAt_cons (by decide)
  rw [Parameter.toList_source] at hskipped
  unfold parameter
  refine (answers_identifier hskipped (tokens_word hp.wellFormed.type hboundary)).bind ?_
  rintro _ rfl
  refine (answers_parameterName hp hrest).bind ?_
  rintro _ rfl
  refine answers_pure ?_
  have hdollar : p.name.toList.dropWhile (· == '$') = p.name.toList := by
    cases hlist : p.name.toList with
    | nil => rfl
    | cons c cs =>
      refine List.dropWhile_cons_of_neg fun hc => hp.wellFormed.dollar ?_
      rw [hlist, beq_iff_eq.mp hc]
      rfl
  rw [hdollar, String.ofList_toList]

theorem answers_furtherParameter? {p : Parameter} (hp : p.Readable strict) (hrest : BeginsSign rest) :
    Answers strict furtherParameter? (',' :: ' ' :: (p.source.toList ++ rest)) rest
      fun o => ∃ p', o = some p' ∧ p = p' := by
  have hcomma : tokens (',' :: ' ' :: (p.source.toList ++ rest)) =
      ⟨.comma, ","⟩ :: tokens (' ' :: (p.source.toList ++ rest)) := tokens_symbol rfl
  have htype : (front (p.source.toList ++ rest)).kind.isLayout = false := by
    rw [Parameter.toList_source,
      front_of_tokens (tokens_word hp.wellFormed.type (stopsAt_cons (by decide)))]
    rfl
  unfold furtherParameter?
  refine (answers_tryTake (skipped_symbol rfl) hcomma).bind ?_
  rintro o ⟨l, rfl, -⟩
  exact (answers_parameter hp hrest (skipped_blank nofun htype)).map
    fun p' hp' => ⟨p', rfl, hp'.symm⟩

theorem beginsSign_furtherParameters (ps : List Parameter) (rest : List Char) :
    BeginsSign (ps.flatMap (fun p => ',' :: ' ' :: p.source.toList) ++ ')' :: rest) := by
  cases ps with
  | nil => exact ⟨')', .rightParen, _, rfl, rfl⟩
  | cons p ps => exact ⟨',', .comma, _, rfl, rfl⟩

theorem runs_furtherParameter? {ps : List Parameter} (hps : ∀ p ∈ ps, p.Readable strict) :
    Runs strict furtherParameter? Eq ps
      (ps.flatMap (fun p => ',' :: ' ' :: p.source.toList) ++ ')' :: rest) (')' :: rest) := by
  induction ps with
  | nil =>
    have hkind : (front (')' :: rest)).kind ≠ .comma := by
      rw [front_symbol (rfl : LexemeKind.ofChar? ')' = some .rightParen)]
      decide
    refine .stop ?_
    unfold furtherParameter?
    refine (answers_tryTake_none (skipped_symbol rfl) hkind).bind ?_
    rintro o rfl
    exact answers_pure rfl
  | cons p ps ih =>
    rw [List.forall_mem_cons] at hps
    have hp := answers_furtherParameter? hps.1 (beginsSign_furtherParameters ps rest)
    refine .step ?_ (ih hps.2)
    simpa using hp

theorem answers_parameters {ps : List Parameter} (hps : ∀ p ∈ ps, p.Readable strict) :
    Answers strict parameters
      ((String.intercalate ", " (ps.map Parameter.source)).toList ++ ')' :: rest) rest (· = ps) := by
  have hclose : tokens (')' :: rest) = ⟨.rightParen, ")"⟩ :: tokens rest := tokens_symbol rfl
  unfold parameters
  cases ps with
  | nil =>
    refine (answers_tryTake (skipped_symbol rfl) hclose).bind ?_
    rintro o ⟨l, rfl, -⟩
    exact answers_pure rfl
  | cons p ps =>
    rw [List.forall_mem_cons] at hps
    rw [List.map_cons, toList_intercalate_cons, List.flatMap_map, List.append_assoc]
    have hfront : front (p.source.toList ++
        (ps.flatMap (fun p => ", ".toList ++ p.source.toList) ++ ')' :: rest)) = ⟨.word, p.type⟩ := by
      rw [Parameter.toList_source]
      exact front_of_tokens (tokens_word hps.1.wellFormed.type (stopsAt_cons (by decide)))
    have hskipped : Skipped Skip.layout.skips (p.source.toList ++
        (ps.flatMap (fun p => ", ".toList ++ p.source.toList) ++ ')' :: rest)) _ :=
      skipped_stay (by rw [hfront]; rfl)
    refine (answers_tryTake_none hskipped (by rw [hfront]; exact nofun)).bind ?_
    rintro o rfl
    refine (answers_parameter hps.1 (beginsSign_furtherParameters ps _) hskipped).bind ?_
    rintro _ rfl
    have hprogress := reads_furtherParameter?.progress
    refine ((runs_furtherParameter? hps.2).answers hprogress).bind fun others hothers => ?_
    refine (answers_take (skipped_symbol rfl) hclose).bind fun _ _ => answers_pure ?_
    rw [List.forall₂_eq_eq_eq] at hothers
    rw [hothers]

/-! ## Declarations -/

theorem answers_declaration {l : Lexeme} {name : String} {params : List Parameter}
    {ss : List Statement} (hname : IsWord name) (hparams : ∀ p ∈ params, p.Readable strict)
    (hss : ∀ s ∈ ss, s.Readable strict ∧ s.isDeclaration = false) :
    Answers strict (declaration l)
      (' ' :: (name.toList ++
        '(' :: ((String.intercalate ", " (params.map Parameter.source)).toList ++
          ')' :: ' ' :: '\x7b' :: '\n' :: ((Statement.sourceOfBody ss).toList ++ '\x7d' :: rest))))
      rest fun s => s.unplaced = (Statement.declaration l.start name params ss).unplaced := by
  have hword (cs : List Char) :
      tokens (name.toList ++ '(' :: cs) = ⟨.word, name⟩ :: tokens ('(' :: cs) :=
    tokens_word hname (stopsAt_cons (by decide))
  have hskipped (cs : List Char) : Skipped Skip.whitespace.skips
      (' ' :: (name.toList ++ '(' :: cs)) (name.toList ++ '(' :: cs) := by
    refine skipped_blank nofun ?_
    rw [front_of_tokens (hword cs)]
    rfl
  have hlayout (cs : List Char) :
      Skipped Skip.layout.skips (' ' :: '\x7b' :: cs) ('\x7b' :: cs) := by
    refine skipped_blank nofun ?_
    rw [front_symbol (rfl : LexemeKind.ofChar? '\x7b' = some .leftBrace)]
    rfl
  have hopen {cs : List Char} : tokens ('(' :: cs) = ⟨.leftParen, "("⟩ :: tokens cs :=
    tokens_symbol rfl
  have hbrace {cs : List Char} : tokens ('\x7b' :: cs) = ⟨.leftBrace, "\x7b"⟩ :: tokens cs :=
    tokens_symbol rfl
  have hclose : tokens ('\x7d' :: rest) = ⟨.rightBrace, "\x7d"⟩ :: tokens rest := tokens_symbol rfl
  unfold declaration
  refine (answers_identifier (hskipped _) (hword _)).bind ?_
  rintro _ rfl
  refine (answers_take (skipped_symbol rfl) hopen).bind fun _ _ => ?_
  refine (answers_parameters hparams).bind ?_
  rintro _ rfl
  refine (answers_take (hlayout _) hbrace).bind fun _ _ => ?_
  refine (answers_body hss).bind fun ss' hss' => ?_
  refine (answers_take (skipped_symbol rfl) hclose).bind fun _ _ => answers_pure ?_
  unfold Statement.unplaced
  rw [hss']

end Parser

end CommandScript
