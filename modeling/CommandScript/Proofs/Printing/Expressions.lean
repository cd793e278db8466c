import CommandScript.Proofs.Printing.Operands

/-!
Printed expressions. By induction on the tree, an operand parser reads a printed expression back. A
node costs at most two levels, one for its brackets and one for its mark, and a call without
arguments looks for one level further; with fewer levels the parser faults, as it does at a number
that is printed as a name.
-/

namespace CommandScript
set_option autoImplicit false

open Float.Model.UnpackedFloat (Sign)
open CommandScript.Parser

variable {strict : Prop} {rest : List Char}

/-- Without a level an operand is no operand but a fault. -/
theorem Parser.answers_operandWithin {n : Nat} {cs stop : List Char} {P : Option Expr → Prop}
    (hlevels : strict → 0 < n)
    (h : ∀ k, n = k + 1 → Answers strict (operandOver (operandWithin k)) cs stop P) :
    Answers strict (operandWithin n) cs stop P := by
  cases n with
  | zero => exact fun c _ => .inr ⟨fun hstrict => Nat.lt_irrefl 0 (hlevels hstrict), _, rfl⟩
  | succ n => exact h n rfl

/-! ## What follows the parts -/

theorem LexemeKind.endsOperand_of_endsExpression {kind : LexemeKind} (h : kind.endsExpression) :
    kind.endsOperand := by
  unfold endsExpression at h
  rw [Bool.and_eq_true] at h
  exact h.1

theorem LexemeKind.endsExpression_of_endsArguments {kind : LexemeKind} (h : kind.endsArguments) :
    kind.endsExpression := by
  unfold endsArguments at h
  rw [Bool.and_eq_true, Bool.and_eq_true] at h
  exact h.1.1

theorem Begins.follows_blank_operand {minus : Prop} {cs : List Char} (h : Begins minus cs) :
    Follows LexemeKind.endsOperand (' ' :: cs) := by
  have hkind := h.kind
  refine CommandScript.follows_blank h.not_layout ?_
  revert hkind
  cases (front cs).kind <;> decide

/-- Before a further argument an expression ends, since it does not go on with a minus sign. -/
theorem Begins.follows_blank {minus : Prop} {cs : List Char} (h : Begins minus cs)
    (hminus : ¬ minus) : Follows LexemeKind.endsExpression (' ' :: cs) := by
  have hkind := h.kind
  have hnot : (front cs).kind ≠ .minus := fun hfront => hminus (h.minus hfront)
  refine CommandScript.follows_blank h.not_layout ?_
  revert hkind hnot
  cases (front cs).kind <;> decide

theorem follows_operator (op : Operator) :
    Follows LexemeKind.endsOperand (' ' :: (op.sign.toList ++ ' ' :: rest)) := by
  obtain ⟨c, kind, hsign, hkind, hop⟩ := Operator.sign_eq op
  rw [hsign, List.singleton_append]
  refine follows_blank ?_ ?_
  · rw [front_symbol hkind]
    exact isLayout_of_ofChar? hkind
  · rw [front_symbol hkind]
    revert hop
    cases kind <;> simp [Operator.ofKind?, LexemeKind.endsOperand]

namespace Expr

/-! ## Literals -/

theorem answers_numberText {operand : Parser (Option Expr)} {x : Float}
    (hx : (literal (.number x)).Readable strict) (hlowest : ¬ (literal (.number x)).IsLowest)
    (hrest : Boundary rest) :
    Answers strict (operandOver operand) ((Number.text x).toList ++ rest) rest
      (· = some (.literal (.number x))) := by
  obtain ⟨w, hw⟩ := exists_isNumberWord x
  have hword := tokens_word hw.isWord hrest
  rw [hw.text, String.toList_append]
  rcases Bool.eq_false_or_eq_true x.isFinite with hfinite | hfinite
  · have hread := hw.finite hfinite
    cases hsign : Double.sign x with
    | positive =>
      rw [Double.abs_of_positive hsign] at hread
      exact answers_number hword hread
    | negative =>
      have hanswer : Answers strict (operandOver operand) ('-' :: (w.toList ++ rest)) rest _ :=
        answers_negativeNumber (signedWord hw.isWord hrest) hread
      rw [Double.neg_abs_of_negative hsign] at hanswer
      exact hanswer
  · have hstrict : ¬ strict := fun hstrict => nomatch hfinite.symm.trans (hx.isFinite hstrict)
    obtain ⟨hnumber, hvariable⟩ := hw.name hfinite
    cases hsign : Double.sign x with
    | positive => exact answers_unread hstrict hword hnumber hvariable
    | negative => exact absurd ⟨hfinite, hsign⟩ hlowest

/-- The lowest number is printed as a minus sign before a word that stands for nothing. -/
theorem signedWord_of_isLowest {e : Expr} (h : e.IsLowest) (hrest : Boundary rest) :
    ∃ w, SignedWord (e.source.toList ++ rest) w rest ∧ Number.ofWord? w = none ∧
      variableName? w = none := by
  cases e with
  | literal value =>
    cases value with
    | number x =>
      obtain ⟨hx, hsign⟩ := h
      obtain ⟨w, hw⟩ := exists_isNumberWord x
      refine ⟨w, ?_, hw.name hx⟩
      change SignedWord ((Number.text x).toList ++ rest) w rest
      rw [hw.text, String.toList_append, hsign]
      exact signedWord hw.isWord hrest
    | text | boolean => exact h.elim
  | _ => exact h.elim

/-- An operand other than the lowest number has an answer, and there is none for that one. -/
theorem offers_source {e : Expr} {n : Nat} (he : e.Readable strict) (hrest : Boundary rest)
    (h : ¬ e.IsLowest → Answers strict (operandWithin n) (e.source.toList ++ rest) rest (· = some e)) :
    Offers strict (operandWithin n) (e.source.toList ++ rest) rest e := by
  by_cases hlowest : e.IsLowest
  · have hstrict := he.not_strict hlowest
    obtain ⟨w, hsigned, hnumber, -⟩ := signedWord_of_isLowest hlowest hrest
    refine .inr ⟨hstrict, answers_operandWithin (fun h => absurd h hstrict) ?_⟩
    rintro n rfl
    exact answers_operandOver_sign hsigned hnumber
  · exact .inl (h hlowest)

theorem tokens_boolean (b : Bool) (hrest : Boundary rest) :
    tokens ((if b then "true" else "false" : String).toList ++ rest) =
      ⟨.keyword, if b then "true" else "false"⟩ :: tokens rest := by
  rw [tokens_run (isRun_boolean b) hrest]
  cases b <;> rfl

/-! ## Behind an exclamation mark -/

theorem noName_of_kind {cs : List Char} (h : (front cs).kind ≠ .word) : NoName cs :=
  fun hkind => absurd hkind h

theorem noName_of_content {cs : List Char} (h : isName (front cs).content = false) : NoName cs :=
  fun _ => h

theorem noName_leftParen {cs : List Char} : NoName ('(' :: cs) := by
  refine noName_of_kind ?_
  rw [front_symbol (rfl : LexemeKind.ofChar? '(' = some .leftParen)]
  exact nofun

theorem noName_numberText {x : Float} (hnamed : ¬ (literal (.number x)).IsNamed)
    (hrest : Boundary rest) : NoName ((Number.text x).toList ++ rest) := by
  obtain ⟨w, hw⟩ := exists_isNumberWord x
  rw [hw.text, String.toList_append]
  cases hsign : Double.sign x with
  | positive =>
    have hx : x.isFinite := by
      rw [← Bool.not_eq_false]
      exact fun hx => hnamed ⟨hx, hsign⟩
    refine noName_of_content ?_
    change isName (front (w.toList ++ rest)).content = false
    rw [front_of_tokens (tokens_word hw.isWord hrest)]
    unfold isName
    rw [hw.finite hx]
    exact Bool.and_false _
  | negative =>
    refine noName_of_kind ?_
    change (front ('-' :: (w.toList ++ rest))).kind ≠ .word
    rw [front_symbol (rfl : LexemeKind.ofChar? '-' = some .minus)]
    exact nofun

/-- No printed expression begins as the name of a call does, numbers without digits left aside. -/
theorem noName_source {e : Expr} (hwell : e.WellFormed) (hnamed : ¬ e.IsNamed)
    (hrest : Boundary rest) : NoName (e.source.toList ++ rest) := by
  cases hwell with
  | @literal value =>
    cases value with
    | number x => exact noName_numberText hnamed hrest
    | text s =>
      refine noName_of_kind ?_
      change (front ((Text.quote s).toList ++ rest)).kind ≠ .word
      rw [front_of_tokens (tokens_quote s)]
      exact nofun
    | boolean b =>
      refine noName_of_kind ?_
      change (front ((if b then "true" else "false" : String).toList ++ rest)).kind ≠ .word
      rw [front_of_tokens (tokens_boolean b hrest)]
      exact nofun
  | «variable» hname =>
    refine noName_of_content ?_
    change isName (front (("$" ++ _).toList ++ rest)).content = false
    rw [front_of_tokens (tokens_word (isWord_dollar hname) hrest)]
    unfold isName
    rw [String.toList_append]
    rfl
  | assign =>
    rw [toList_source_assign]
    exact noName_leftParen
  | negate =>
    rw [toList_source_negate]
    exact noName_leftParen
  | binary =>
    rw [toList_source_binary]
    exact noName_leftParen
  | call =>
    rw [toList_source_call]
    exact noName_leftParen

/-! ## Assignments without brackets -/

theorem answers_bareSource_assign {n : Nat} {name : String} {value : Expr} (hname : IsRun name)
    (hwell : value.WellFormed) (hdepth : strict → (assign name value).depth ≤ maxDepth)
    (hrest : Follows LexemeKind.endsExpression rest)
    (hvalue : Offers strict (operandWithin n) (value.source.toList ++ rest) rest value) :
    Answers strict (expression? (operandOver (operandWithin n)))
      ((assign name value).bareSource.toList ++ rest) rest (· = some (assign name value)) := by
  have hbegins := begins_source hwell hrest.boundary
  have hvalueDepth : strict → value.depth ≤ maxDepth :=
    fun hstrict => (Nat.le_succ value.depth).trans (hdepth hstrict)
  have hexpression := answers_expression (offers_expression? hvalue fun h =>
    answers_expression?_operand h hvalueDepth (noLink hrest))
  have hboundary : Boundary (' ' :: '=' :: ' ' :: (value.source.toList ++ rest)) :=
    stopsAt_cons (by decide)
  have hword := tokens_word (isWord_dollar hname) hboundary
  rw [toList_bareSource_assign]
  exact answers_expression?_operand (answers_assign hword hname.nonempty hbegins hexpression) hdepth
    (noLink hrest)

/-! ## What follows an argument -/

theorem boundary_sourceOfAll (es : List Expr) (hrest : Boundary rest) :
    Boundary ((sourceOfAll es).toList ++ rest) := by
  cases es with
  | nil => exact hrest
  | cons e es =>
    rw [toList_sourceOfAll_cons]
    exact stopsAt_cons (by decide)

/-- The first one of the expressions, if there is one, is the lowest number. -/
def BeginsLowest (es : List Expr) : Prop := ∃ e ∈ es.head?, e.IsLowest

section

variable {es : List Expr} (hes : ∀ e ∈ es, e.Readable strict)

include hes

theorem not_strict_of_beginsLowest (hlowest : BeginsLowest es) : ¬ strict := by
  obtain ⟨e, he, hlowest⟩ := hlowest
  exact (hes e (List.mem_of_mem_head? he)).not_strict hlowest

theorem signedWord_of_beginsLowest (hlowest : BeginsLowest es) (hrest : Boundary rest) :
    ∃ mid w after, Skipped Skip.whitespace.skips ((sourceOfAll es).toList ++ rest) mid ∧
      SignedWord mid w after ∧ Number.ofWord? w = none ∧ variableName? w = none := by
  obtain ⟨e, he, hlowest⟩ := hlowest
  cases es with
  | nil => exact nomatch he
  | cons e' es =>
    obtain rfl : e' = e := Option.some.inj he
    have hboundary := boundary_sourceOfAll es hrest
    have hbegins := begins_source (List.forall_mem_cons.mp hes).1.wellFormed hboundary
    obtain ⟨w, hword⟩ := signedWord_of_isLowest hlowest hboundary
    rw [toList_sourceOfAll_cons]
    exact ⟨_, w, _, hbegins.skipped_blank, hword⟩

/-- Behind an operand the minus sign of the lowest number goes on with it. -/
theorem stalls_sourceOfAll (hlowest : BeginsLowest es) (hrest : Boundary rest) (n : Nat) :
    Stalls strict (operandWithin n) ((sourceOfAll es).toList ++ rest) := by
  have hstrict := not_strict_of_beginsLowest hes hlowest
  obtain ⟨mid, w, after, hskipped, hsigned, hnumber, hvariable⟩ :=
    signedWord_of_beginsLowest hes hlowest hrest
  refine stalls_sign hstrict hskipped hsigned fun stop P => ?_
  refine answers_operandWithin (fun h => absurd h hstrict) ?_
  rintro n rfl
  exact answers_unread hstrict hsigned.word hnumber hvariable

/-- No argument begins with the lowest number. -/
theorem answers_sourceOfAll_lowest (hlowest : BeginsLowest es) (hrest : Boundary rest) (n : Nat) :
    Answers strict (arguments (operandWithin n)) ((sourceOfAll es).toList ++ rest)
      ((sourceOfAll es).toList ++ rest) (· = []) := by
  have hstrict := not_strict_of_beginsLowest hes hlowest
  obtain ⟨mid, w, after, hskipped, hsigned, hnumber, -⟩ :=
    signedWord_of_beginsLowest hes hlowest hrest
  refine answers_arguments_nil (answers_argument?_none true hskipped ?_ ?_)
  · rw [front_of_tokens hsigned.sign]
    exact nofun
  · refine answers_operandWithin (fun h => absurd h hstrict) ?_
    rintro n rfl
    exact answers_operandOver_sign hsigned hnumber

theorem follows_sourceOfAll_operand (hrest : Follows LexemeKind.endsArguments rest) :
    Follows LexemeKind.endsOperand ((sourceOfAll es).toList ++ rest) := by
  cases es with
  | nil =>
    exact (hrest.weaken fun _ => LexemeKind.endsExpression_of_endsArguments).weaken
      fun _ => LexemeKind.endsOperand_of_endsExpression
  | cons e es =>
    rw [toList_sourceOfAll_cons]
    have hboundary := boundary_sourceOfAll es hrest.boundary
    exact (begins_source (List.forall_mem_cons.mp hes).1.wellFormed hboundary).follows_blank_operand

/-- An argument ends where the next one begins, and the last one where the arguments end. -/
theorem follows_sourceOfAll (hminus : ∀ e ∈ es, ¬ e.IsSubtracted) (hlowest : ¬ BeginsLowest es)
    (hrest : Follows LexemeKind.endsArguments rest) :
    Follows LexemeKind.endsExpression ((sourceOfAll es).toList ++ rest) := by
  cases es with
  | nil => exact hrest.weaken fun _ => LexemeKind.endsExpression_of_endsArguments
  | cons e es =>
    rw [List.forall_mem_cons] at hes hminus
    rw [toList_sourceOfAll_cons]
    have hboundary := boundary_sourceOfAll es hrest.boundary
    refine (begins_source hes.1.wellFormed hboundary).follows_blank fun hnegative => ?_
    rcases isNegative_iff.mp hnegative with h | h
    · exact hminus.1 h
    · exact hlowest ⟨e, rfl, h⟩

/-! ## Calls without brackets and their arguments -/

theorem answers_bareSource_call {n : Nat} {name : String} (hname : IsWord name)
    (hisName : isName name) (hdepth : strict → (call name es).depth ≤ maxDepth)
    (hrest : Follows LexemeKind.endsExpression rest)
    (hargs : ¬ BeginsLowest es →
      Answers strict (arguments (operandWithin n)) ((sourceOfAll es).toList ++ rest) rest (· = es)) :
    Answers strict (expression? (operandOver (operandWithin n)))
      ((call name es).bareSource.toList ++ rest) rest (· = some (call name es)) := by
  have hword := tokens_word hname (boundary_sourceOfAll es hrest.boundary)
  rw [toList_bareSource_call]
  by_cases hlowest : BeginsLowest es
  · have hstalls := stalls_sourceOfAll hes hlowest hrest.boundary (n + 1)
    have hnone := answers_sourceOfAll_lowest hes hlowest hrest.boundary n
    exact hstalls.answers_expression? (answers_call hword hisName hnone)
  · exact answers_expression?_operand (answers_call hword hisName (hargs hlowest)) hdepth (noLink hrest)

/-- An operand among the arguments is one of them, unless the lowest number stands behind it. -/
theorem answers_argument?_cons {n : Nat} {e : Expr} (isFirst : Bool) (hwell : e.WellFormed)
    (hminus : ∀ e ∈ es, ¬ e.IsSubtracted) (hdepth : strict → e.depth ≤ maxDepth)
    (hrest : Follows LexemeKind.endsArguments rest)
    (he : Answers strict (operandWithin n) (e.source.toList ++ ((sourceOfAll es).toList ++ rest))
      ((sourceOfAll es).toList ++ rest) (· = some e)) :
    (¬ BeginsLowest es ∧ Answers strict (argument? (operandWithin n) isFirst)
      ((sourceOfAll (e :: es)).toList ++ rest) ((sourceOfAll es).toList ++ rest)
        fun o => ∃ e', o = some e' ∧ e = e') ∨
    (¬ strict ∧ Answers strict (argument? (operandWithin n) isFirst)
      ((sourceOfAll (e :: es)).toList ++ rest) rest fun _ => False) := by
  have hbegins := begins_source hwell (boundary_sourceOfAll es hrest.boundary)
  rw [toList_sourceOfAll_cons]
  by_cases hlowest : BeginsLowest es
  · have hstalls := stalls_sourceOfAll hes hlowest hrest.boundary n
    exact .inr ⟨not_strict_of_beginsLowest hes hlowest,
      answers_argument?_fault isFirst hbegins (hstalls.answers_expression? he)⟩
  · have hends := follows_sourceOfAll hes hminus hlowest hrest
    have hexpression := answers_expression?_operand he hdepth (noLink hends)
    exact .inl ⟨hlowest, answers_argument? isFirst hbegins
      (hexpression.weaken fun o ho => ⟨e, ho, rfl⟩)⟩

end

theorem answers_argument?_end {n : Nat} (isFirst : Bool) (hlevels : strict → 0 < n)
    (hrest : Follows LexemeKind.endsArguments rest) :
    Answers strict (argument? (operandWithin n) isFirst) rest rest (· = none) := by
  obtain ⟨-, mid, hskipped, hmid⟩ := hrest
  unfold LexemeKind.endsArguments at hmid
  rw [Bool.and_eq_true, Bool.and_eq_true, Bool.not_eq_true', decide_eq_true_eq] at hmid
  refine answers_argument?_none isFirst hskipped hmid.2 (answers_operandWithin hlevels ?_)
  rintro n rfl
  exact answers_operandOver_none hmid.1.2

/-! ## Levels -/

/-- A parser that has to be strict has levels enough for a tree of the depth. -/
def Enough (strict : Prop) (depth n : Nat) : Prop := strict → 2 * depth + 1 ≤ n

section

variable {depth depth' n : Nat}

theorem Enough.of_le (h : Enough strict depth n) (hdepth : depth' ≤ depth) : Enough strict depth' n :=
  fun hstrict => by have := h hstrict; omega

theorem Enough.inside (h : Enough strict (depth + 1) (n + 1)) : Enough strict depth n :=
  fun hstrict => by have := h hstrict; omega

theorem Enough.inside_mark (h : Enough strict (depth + 1) (n + 2)) : Enough strict depth n :=
  fun hstrict => by have := h hstrict; omega

theorem Enough.pos (h : Enough strict depth n) : strict → 0 < n :=
  fun hstrict => by have := h hstrict; omega

theorem Enough.depth_le (h : Enough strict depth n) (hmax : n ≤ maxDepth) :
    strict → depth ≤ maxDepth :=
  fun hstrict => by have := h hstrict; omega

end

/-- The brackets of a node take one level, and a mark or a sign inside them takes the next one. -/
theorem answers_brackets_within {n depth : Nat} {mid : List Char} {e : Expr}
    (henough : Enough strict (depth + 1) n) (hskipped : Skipped Skip.whitespace.skips mid mid)
    (he : ∀ k, n = k + 2 → Enough strict depth k → Answers strict
      (expression? (operandOver (operandWithin k))) mid (')' :: rest) (· = some e)) :
    Answers strict (operandWithin n) ('(' :: mid) rest (· = some e) := by
  refine answers_operandWithin henough.pos ?_
  rintro n rfl
  refine answers_brackets hskipped (answers_expression (.inl ?_))
  cases n with
  | zero =>
    have hoperand : Answers strict (operandWithin 0) mid mid fun _ => False :=
      answers_operandWithin henough.inside.pos nofun
    unfold expression?
    exact answers_peek_bind fun start _ => hoperand.bind nofun
  | succ n => exact he n rfl henough.inside_mark

/-! ## Round trip of operands -/

mutual

theorem answers_source (e : Expr) (he : e.Readable strict) (hlowest : ¬ e.IsLowest) {n : Nat}
    (henough : Enough strict e.depth n) (hmax : n ≤ maxDepth) {rest : List Char}
    (hrest : Follows LexemeKind.endsOperand rest) :
    Answers strict (operandWithin n) (e.source.toList ++ rest) rest (· = some e) := by
  have hclose : Follows LexemeKind.endsArguments (')' :: rest) := follows_symbol rfl rfl
  have hclose' := hclose.weaken fun _ => LexemeKind.endsExpression_of_endsArguments
  have hclose'' := hclose'.weaken fun _ => LexemeKind.endsOperand_of_endsExpression
  have hdepth := henough.depth_le hmax
  cases e with
  | literal value =>
    refine answers_operandWithin henough.pos ?_
    rintro n rfl
    cases value with
    | number x => exact answers_numberText he hlowest hrest.boundary
    | text => exact answers_text (tokens_quote _) (Text.unquote?_quote _)
    | boolean => exact answers_boolean (tokens_boolean _ hrest.boundary)
  | «variable» name =>
    have hname := he.of_variable
    refine answers_operandWithin henough.pos ?_
    rintro n rfl
    exact answers_variable (tokens_word (isWord_dollar hname) hrest.boundary) hname.nonempty hrest
  | assign name value =>
    obtain ⟨hname, hvalue⟩ := he.of_assign
    rw [toList_source_assign]
    refine answers_brackets_within henough ?_ ?_
    · rw [toList_bareSource_assign]
      have hbegins : Begins False
          (("$" ++ name).toList ++ ' ' :: '=' :: ' ' :: (value.source.toList ++ ')' :: rest)) :=
        begins_run (isWord_dollar hname).toIsRun (stopsAt_cons (by decide))
      exact hbegins.skipped
    · rintro n rfl hinside
      refine answers_bareSource_assign hname hvalue.wellFormed hdepth hclose' ?_
      exact offers_source hvalue hclose.boundary fun hlowest =>
        answers_source value hvalue hlowest hinside (by omega) hclose''
  | negate e =>
    obtain ⟨hnamed, he⟩ := he.of_negate
    rw [toList_source_negate]
    refine answers_brackets_within henough (skipped_symbol rfl) ?_
    rintro n rfl hinside
    refine answers_expression?_operand ?_ hdepth (noLink hclose')
    refine answers_negate (noName_source he.wellFormed hnamed hclose.boundary) ?_
    exact offers_source he hclose.boundary fun hlowest =>
      answers_source e he hlowest hinside (by omega) hclose''
  | binary left op right =>
    obtain ⟨hleft, hright⟩ := he.of_binary
    have hop : Follows LexemeKind.endsOperand
        (' ' :: (op.sign.toList ++ ' ' :: (right.source.toList ++ ')' :: rest))) :=
      follows_operator op
    rw [toList_source_binary]
    refine answers_operandWithin henough.pos ?_
    rintro n rfl
    have hinside : Enough strict (max left.depth right.depth) n := henough.inside
    have hreadLeft := offers_source hleft hop.boundary fun hlowest =>
      answers_source left hleft hlowest (hinside.of_le (Nat.le_max_left _ _)) (by omega) hop
    have hreadRight := offers_source hright hclose.boundary fun hlowest =>
      answers_source right hright hlowest (hinside.of_le (Nat.le_max_right _ _)) (by omega) hclose''
    have hbegins := begins_source hright.wellFormed hclose.boundary
    refine answers_brackets ?_ (answers_expression (offers_expression? hreadLeft fun hreadLeft =>
      answers_expression?_binary hreadLeft hbegins hreadRight hdepth (noLink hclose')))
    exact (begins_source hleft.wellFormed hop.boundary).skipped
  | call name args =>
    obtain ⟨⟨hname, hisName⟩, hargs, hminus⟩ := he.of_call
    rw [toList_source_call]
    refine answers_brackets_within henough ?_ ?_
    · rw [toList_bareSource_call]
      exact skipped_symbol rfl
    · rintro n rfl hinside
      refine answers_bareSource_call hargs hname hisName hdepth hclose' fun hlowest => ?_
      exact answers_sourceOfAll args hargs hminus hlowest hinside (by omega) hclose

/-- The arguments of a command or of a call. -/
theorem answers_sourceOfAll (es : List Expr) (hes : ∀ e ∈ es, e.Readable strict)
    (hminus : ∀ e ∈ es.tail, ¬ e.IsSubtracted) (hlowest : ¬ BeginsLowest es) {n : Nat}
    (henough : Enough strict (depthOfAll es) n) (hmax : n ≤ maxDepth) {rest : List Char}
    (hrest : Follows LexemeKind.endsArguments rest) :
    Answers strict (arguments (operandWithin n)) ((sourceOfAll es).toList ++ rest) rest (· = es) := by
  cases es with
  | nil => exact answers_arguments_nil (answers_argument?_end true henough.pos hrest)
  | cons e es =>
    rw [List.forall_mem_cons] at hes
    have henoughHead := henough.of_le (Nat.le_max_left e.depth (depthOfAll es))
    have he := answers_source e hes.1 (fun h => hlowest ⟨e, rfl, h⟩) henoughHead hmax
      (follows_sourceOfAll_operand hes.2 hrest)
    rcases answers_argument?_cons hes.2 true hes.1.wellFormed hminus (henoughHead.depth_le hmax)
      hrest he with ⟨hnext, hargument⟩ | ⟨-, hfault⟩
    · exact answers_arguments_cons (reads_operandWithin n) hargument
        (runs_sourceOfAll es hes.2 hminus hnext (henough.of_le (Nat.le_max_right _ _)) hmax hrest)
    · exact answers_arguments_fault hfault

theorem runs_sourceOfAll (es : List Expr) (hes : ∀ e ∈ es, e.Readable strict)
    (hminus : ∀ e ∈ es, ¬ e.IsSubtracted) (hlowest : ¬ BeginsLowest es) {n : Nat}
    (henough : Enough strict (depthOfAll es) n) (hmax : n ≤ maxDepth) {rest : List Char}
    (hrest : Follows LexemeKind.endsArguments rest) :
    Runs strict (argument? (operandWithin n) false) Eq es ((sourceOfAll es).toList ++ rest) rest := by
  cases es with
  | nil => exact .stop (answers_argument?_end false henough.pos hrest)
  | cons e es =>
    rw [List.forall_mem_cons] at hes hminus
    have henoughHead := henough.of_le (Nat.le_max_left e.depth (depthOfAll es))
    have he := answers_source e hes.1 (fun h => hlowest ⟨e, rfl, h⟩) henoughHead hmax
      (follows_sourceOfAll_operand hes.2 hrest)
    rcases answers_argument?_cons hes.2 false hes.1.wellFormed hminus.2 (henoughHead.depth_le hmax)
      hrest he with ⟨hnext, hargument⟩ | ⟨hstrict, hfault⟩
    · exact .step hargument
        (runs_sourceOfAll es hes.2 hminus.2 hnext (henough.of_le (Nat.le_max_right _ _)) hmax hrest)
    · exact .fault hstrict hfault

end

end Expr

end CommandScript
