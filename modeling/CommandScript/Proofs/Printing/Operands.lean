import CommandScript.Proofs.Parser.Expressions
import CommandScript.Proofs.Printing.Steady

/-!
Printed operands. An expression as it stands inside another one is an operand, and the parser of
operands reads it back wherever no sign follows that would go on with it; each bracket around an
expression with parts costs levels, so the levels must be twice the depth of the tree. Where levels
run out, or a number is printed as a name, a parser that need not be strict faults.
-/

namespace CommandScript
set_option autoImplicit false

open Float.Model.UnpackedFloat (Sign)

/-! ## Expressions that can be printed -/

/-- A number with a minus sign, which would be subtracted from an argument before it. -/
def Expr.IsNegative : Expr → Prop
  | .literal (.number x) => Double.sign x = .negative
  | _ => False

inductive Expr.Printable : Expr → Prop where
  | number {x : Float} : x.isFinite → Printable (.literal (.number x))
  | text {s : String} : Printable (.literal (.text s))
  | boolean {b : Bool} : Printable (.literal (.boolean b))
  | variable {name : String} : Printable (.variable name)
  | assign {name : String} {value : Expr} : Printable value → Printable (.assign name value)
  | negate {e : Expr} : Printable e → Printable (.negate e)
  | binary {left right : Expr} {op : Operator} :
      Printable left → Printable right → Printable (.binary left op right)
  | call {name : String} {args : List Expr} :
      (∀ e ∈ args, Printable e) → (∀ e ∈ args.tail, ¬ e.IsNegative) → Printable (.call name args)

instance : DecidablePred Expr.IsNegative
  | .literal (.number x) =>
    match h : Double.sign x with
    | .negative => isTrue h
    | .positive => isFalse fun hnegative => nomatch h.symm.trans hnegative
  | .literal (.text _) | .literal (.boolean _) | .variable _ | .assign _ _ | .negate _
  | .binary _ _ _ | .call _ _ => inferInstanceAs (Decidable False)

mutual

def Expr.decidablePrintable : (e : Expr) → Decidable e.Printable
  | .literal (.number x) => decidable_of_iff x.isFinite ⟨.number, fun | .number h => h⟩
  | .literal (.text _) => isTrue .text
  | .literal (.boolean _) => isTrue .boolean
  | .variable _ => isTrue .variable
  | .assign _ value =>
    let _ := value.decidablePrintable
    decidable_of_iff value.Printable ⟨.assign, fun | .assign h => h⟩
  | .negate e =>
    let _ := e.decidablePrintable
    decidable_of_iff e.Printable ⟨.negate, fun | .negate h => h⟩
  | .binary left _ right =>
    let _ := left.decidablePrintable
    let _ := right.decidablePrintable
    decidable_of_iff (left.Printable ∧ right.Printable)
      ⟨fun h => .binary h.1 h.2, fun | .binary hl hr => ⟨hl, hr⟩⟩
  | .call _ args =>
    let _ := Expr.decidablePrintableAll args
    decidable_of_iff ((∀ e ∈ args, e.Printable) ∧ ∀ e ∈ args.tail, ¬ e.IsNegative)
      ⟨fun h => .call h.1 h.2, fun | .call h hm => ⟨h, hm⟩⟩

def Expr.decidablePrintableAll : (es : List Expr) → Decidable (∀ e ∈ es, e.Printable)
  | [] => isTrue nofun
  | e :: es =>
    let _ := e.decidablePrintable
    let _ := Expr.decidablePrintableAll es
    decidable_of_iff (e.Printable ∧ ∀ e ∈ es, e.Printable) List.forall_mem_cons.symm

end

instance : DecidablePred Expr.Printable := Expr.decidablePrintable

/-! ## Printable expressions are steady -/

namespace Expr

variable {e : Expr}

theorem isNegative_iff : e.IsNegative ↔ e.IsSubtracted ∨ e.IsLowest := by
  cases e with
  | literal value =>
    cases value with
    | number x =>
      unfold IsNegative IsSubtracted IsLowest
      rcases Bool.eq_false_or_eq_true x.isFinite with hx | hx <;> simp [hx]
    | text | boolean => exact ⟨False.elim, fun h => h.elim id id⟩
  | _ => exact ⟨False.elim, fun h => h.elim id id⟩

theorem not_isNamed_of_printable (h : e.Printable) : ¬ e.IsNamed := by
  cases h with
  | number hx => exact fun hnamed => nomatch hx.symm.trans hnamed.1
  | _ => exact id

theorem not_isLowest_of_printable (h : e.Printable) : ¬ e.IsLowest := by
  cases h with
  | number hx => exact fun hlowest => nomatch hx.symm.trans hlowest.1
  | _ => exact id

theorem not_isSubtracted_of_mem {es : List Expr} (h : ∀ e ∈ es, ¬ e.IsNegative) :
    ∀ e ∈ es, ¬ e.IsSubtracted :=
  fun e he hsubtracted => h e he (isNegative_iff.mpr (.inl hsubtracted))

mutual

theorem steady_of_printable (e : Expr) (h : e.Printable) : e.Steady := by
  cases e with
  | literal => exact .literal
  | «variable» => exact .variable
  | assign name value =>
    cases h with
    | assign h => exact .assign (steady_of_printable value h)
  | negate e =>
    cases h with
    | negate h => exact .negate (steady_of_printable e h) (not_isNamed_of_printable h)
  | binary left op right =>
    cases h with
    | binary hleft hright =>
      exact .binary (steady_of_printable left hleft) (steady_of_printable right hright)
  | call name args =>
    cases h with
    | call h hminus => exact .call (steady_of_printableAll args h) (not_isSubtracted_of_mem hminus)

theorem steady_of_printableAll (es : List Expr) (h : ∀ e ∈ es, e.Printable) :
    ∀ e ∈ es, e.Steady := by
  cases es with
  | nil => exact nofun
  | cons e es =>
    rw [List.forall_mem_cons] at h ⊢
    exact ⟨steady_of_printable e h.1, steady_of_printableAll es h.2⟩

end

/-! ## Expressions that are read back -/

/-- The text of the expression stands for no other one, and a parser that has to be strict reads it
back. -/
structure Readable (strict : Prop) (e : Expr) : Prop where
  wellFormed : e.WellFormed
  steady : e.Steady
  printable : strict → e.Printable

namespace Readable

variable {strict : Prop} {name : String} {value left right : Expr} {op : Operator}
  {args es : List Expr} {x : Float}

theorem isFinite (h : (literal (.number x)).Readable strict) (hstrict : strict) : x.isFinite := by
  cases h.printable hstrict with
  | number hx => exact hx

theorem of_variable (h : (Expr.variable name).Readable strict) : IsRun name := by
  cases h.wellFormed with
  | «variable» hname => exact hname

theorem of_assign (h : (assign name value).Readable strict) : IsRun name ∧ value.Readable strict := by
  obtain ⟨hwell, hsteady, hprint⟩ := h
  cases hwell with
  | assign hname hwell =>
  cases hsteady with
  | assign hsteady =>
  refine ⟨hname, hwell, hsteady, fun hstrict => ?_⟩
  cases hprint hstrict with
  | assign hprint => exact hprint

theorem of_negate (h : (negate e).Readable strict) : ¬ e.IsNamed ∧ e.Readable strict := by
  obtain ⟨hwell, hsteady, hprint⟩ := h
  cases hwell with
  | negate hwell =>
  cases hsteady with
  | negate hsteady hnamed =>
  refine ⟨hnamed, hwell, hsteady, fun hstrict => ?_⟩
  cases hprint hstrict with
  | negate hprint => exact hprint

theorem of_binary (h : (binary left op right).Readable strict) :
    left.Readable strict ∧ right.Readable strict := by
  obtain ⟨hwell, hsteady, hprint⟩ := h
  cases hwell with
  | binary hwellLeft hwellRight =>
  cases hsteady with
  | binary hsteadyLeft hsteadyRight =>
  refine ⟨⟨hwellLeft, hsteadyLeft, fun hstrict => ?_⟩, ⟨hwellRight, hsteadyRight, fun hstrict => ?_⟩⟩
  all_goals
    cases hprint hstrict
    assumption

theorem forall_mem (hwell : ∀ e ∈ es, e.WellFormed) (hsteady : ∀ e ∈ es, e.Steady)
    (hprint : strict → ∀ e ∈ es, e.Printable) : ∀ e ∈ es, e.Readable strict :=
  fun e he => ⟨hwell e he, hsteady e he, fun hstrict => hprint hstrict e he⟩

theorem of_call (h : (call name args).Readable strict) :
    (IsWord name ∧ Parser.isName name) ∧ (∀ e ∈ args, e.Readable strict) ∧
      ∀ e ∈ args.tail, ¬ e.IsSubtracted := by
  obtain ⟨hwell, hsteady, hprint⟩ := h
  cases hwell with
  | call hname hisName hwell =>
  cases hsteady with
  | call hsteady hminus =>
  refine ⟨⟨hname, hisName⟩, forall_mem hwell hsteady fun hstrict => ?_, hminus⟩
  cases hprint hstrict with
  | call hprint => exact hprint

theorem not_strict (h : e.Readable strict) (hlowest : e.IsLowest) : ¬ strict :=
  fun hstrict => not_isLowest_of_printable (h.printable hstrict) hlowest

end Readable

end Expr

/-! ## The first token -/

/-- What an operand begins with. -/
def LexemeKind.beginsOperand : LexemeKind → Bool
  | word | quotedString | keyword | leftParen | exclamation | minus => true
  | _ => false

variable {rest : List Char}

theorem LexemeKind.isLayout_of_beginsOperand {kind : LexemeKind} (h : kind.beginsOperand) :
    kind.isLayout = false := by
  revert h
  cases kind <;> decide

/-- A text begins as an operand does, and with a minus sign only if it is allowed. -/
structure Begins (minus : Prop) (cs : List Char) : Prop where
  kind : (front cs).kind.beginsOperand
  minus : (front cs).kind = .minus → minus

theorem begins_run {w : String} {minus : Prop} (hw : IsRun w) (hrest : Boundary rest) :
    Begins minus (w.toList ++ rest) := by
  have hfront : front (w.toList ++ rest) = ⟨.ofWord w, w⟩ := front_of_tokens (tokens_run hw hrest)
  have hkind := LexemeKind.ofWord_eq w
  refine ⟨?_, ?_⟩
  · rw [hfront]
    rcases hkind with h | h <;> rw [h] <;> rfl
  · rw [hfront]
    intro hminus
    rcases hkind with h | h <;> rw [h] at hminus <;> exact nomatch hminus

theorem begins_symbol {c : Char} {kind : LexemeKind} {minus : Prop}
    (h : LexemeKind.ofChar? c = some kind) (hkind : kind.beginsOperand)
    (hminus : kind = .minus → minus) : Begins minus (c :: rest) := by
  refine ⟨?_, ?_⟩
  · rw [front_symbol h]
    exact hkind
  · rw [front_symbol h]
    exact hminus

theorem begins_leftParen {minus : Prop} : Begins minus ('(' :: rest) :=
  begins_symbol (rfl : LexemeKind.ofChar? '(' = some .leftParen) rfl nofun

theorem begins_quote {minus : Prop} (s : String) : Begins minus ((Text.quote s).toList ++ rest) := by
  refine ⟨?_, ?_⟩
  · rw [front_of_tokens (tokens_quote s)]
    rfl
  · rw [front_of_tokens (tokens_quote s)]
    exact nofun

theorem isRun_boolean (b : Bool) : IsRun (if b then "true" else "false") := by
  cases b
  · exact ⟨by decide, by simp; decide⟩
  · exact ⟨by decide, by simp; decide⟩

/-! ## Printed texts -/

namespace Expr

theorem toList_source_assign (name : String) (value : Expr) :
    (assign name value).source.toList ++ rest =
      '(' :: ((assign name value).bareSource.toList ++ ')' :: rest) := by
  simp [source, bareSource]

theorem toList_bareSource_assign (name : String) (value : Expr) :
    (assign name value).bareSource.toList ++ rest =
      ("$" ++ name).toList ++ ' ' :: '=' :: ' ' :: (value.source.toList ++ rest) := by
  simp [bareSource]

theorem toList_source_negate (e : Expr) :
    (negate e).source.toList ++ rest = '(' :: '!' :: (e.source.toList ++ ')' :: rest) := by
  simp [source]

theorem toList_source_binary (left : Expr) (op : Operator) (right : Expr) :
    (binary left op right).source.toList ++ rest =
      '(' :: (left.source.toList ++
        ' ' :: (op.sign.toList ++ ' ' :: (right.source.toList ++ ')' :: rest))) := by
  simp [source]

theorem toList_source_call (name : String) (args : List Expr) :
    (call name args).source.toList ++ rest =
      '(' :: ((call name args).bareSource.toList ++ ')' :: rest) := by
  simp [source, bareSource]

theorem toList_bareSource_call (name : String) (args : List Expr) :
    (call name args).bareSource.toList ++ rest =
      '!' :: (name.toList ++ ((sourceOfAll args).toList ++ rest)) := by
  simp [bareSource]

theorem toList_sourceOfAll_cons (e : Expr) (es : List Expr) :
    (sourceOfAll (e :: es)).toList ++ rest =
      ' ' :: (e.source.toList ++ ((sourceOfAll es).toList ++ rest)) := by
  simp [sourceOfAll]

theorem begins_source {e : Expr} (hwell : e.WellFormed) (hrest : Boundary rest) :
    Begins e.IsNegative (e.source.toList ++ rest) := by
  cases hwell with
  | @literal value =>
    cases value with
    | number x =>
      obtain ⟨w, hw⟩ := exists_isNumberWord x
      change Begins (Double.sign x = .negative) ((Number.text x).toList ++ rest)
      rw [hw.text, String.toList_append]
      cases hsign : Double.sign x with
      | positive => exact begins_run hw.isWord.toIsRun hrest
      | negative => exact begins_symbol (by rfl) rfl fun _ => rfl
    | text s => exact begins_quote s
    | boolean b => exact begins_run (isRun_boolean b) hrest
  | «variable» hname => exact begins_run (isWord_dollar hname).toIsRun hrest
  | assign =>
    rw [toList_source_assign]
    exact begins_leftParen
  | negate =>
    rw [toList_source_negate]
    exact begins_leftParen
  | binary =>
    rw [toList_source_binary]
    exact begins_leftParen
  | call =>
    rw [toList_source_call]
    exact begins_leftParen

end Expr

/-! ## Productions -/

section

variable {minus : Prop} {cs : List Char}

theorem Begins.not_layout (h : Begins minus cs) : (front cs).kind.isLayout = false :=
  LexemeKind.isLayout_of_beginsOperand h.kind

theorem Begins.skipped (h : Begins minus cs) : Skipped Skip.whitespace.skips cs cs :=
  skipped_stay h.not_layout

theorem Begins.skipped_blank (h : Begins minus cs) :
    Skipped Skip.whitespace.skips (' ' :: cs) cs :=
  CommandScript.skipped_blank nofun h.not_layout

end

/-- An operand is at its end where no sign follows that makes it an assignment. -/
def LexemeKind.endsOperand (kind : LexemeKind) : Bool := kind ≠ .equals

/-- An expression is at its end where no operator follows either. -/
def LexemeKind.endsExpression (kind : LexemeKind) : Bool :=
  kind.endsOperand && (Operator.ofKind? kind).isNone

/-- Arguments are at their end where no further one begins either. -/
def LexemeKind.endsArguments (kind : LexemeKind) : Bool :=
  kind.endsExpression && !kind.beginsOperand && kind ≠ .comma

theorem ofWord?_dollar (name : String) : Number.ofWord? ("$" ++ name) = none := by
  unfold Number.ofWord?
  rw [String.toList_append]
  rfl

namespace Parser

theorem variableName?_dollar {name : String} (h : name ≠ "") :
    variableName? ("$" ++ name) = some name := by
  unfold variableName?
  rw [String.toList_append]
  cases hname : name.toList with
  | nil => exact absurd (String.toList_eq_nil_iff.mp hname) h
  | cons c cs =>
    change some (String.ofList (c :: cs)) = some name
    rw [← hname, String.ofList_toList]

variable {strict : Prop} {operand : Parser (Option Expr)} {cs mid : List Char} {w : String} {x : Float}

theorem answers_number (ht : tokens cs = ⟨.word, w⟩ :: tokens rest) (hx : Number.ofWord? w = some x) :
    Answers strict (operandOver operand) cs rest (· = some (.literal (.number x))) := by
  unfold operandOver
  refine answers_peek_front (front_of_tokens ht) fun l hkind hcontent => ?_
  simp only [hkind]
  refine (answers_advance ht).bind fun _ _ => Answers.map ?_ fun e he => congrArg some he
  unfold wordOperand
  simp only [hcontent, hx]
  exact answers_pure rfl

/-- Where a word stands for nothing the parser faults. -/
theorem answers_unread {stop : List Char} {P : Option Expr → Prop} (hstrict : ¬ strict)
    (ht : tokens cs = ⟨.word, w⟩ :: tokens rest) (hnumber : Number.ofWord? w = none)
    (hvariable : variableName? w = none) : Answers strict (operandOver operand) cs stop P := by
  unfold operandOver
  refine answers_peek_front (front_of_tokens ht) fun l hkind hcontent => ?_
  simp only [hkind]
  refine (answers_advance ht).bind fun _ _ => ?_
  refine Answers.map (P := fun _ => False) ?_ nofun
  unfold wordOperand
  simp only [hcontent, hnumber, hvariable]
  exact answers_fail hstrict _ l

/-- The lexemes at the front of the text are a minus sign and a word. -/
structure SignedWord (cs : List Char) (w : String) (rest : List Char) : Prop where
  sign : tokens cs = ⟨.minus, "-"⟩ :: tokens (w.toList ++ rest)
  word : tokens (w.toList ++ rest) = ⟨.word, w⟩ :: tokens rest

theorem signedWord (hw : IsWord w) (hrest : Boundary rest) :
    SignedWord ('-' :: (w.toList ++ rest)) w rest :=
  ⟨tokens_symbol rfl, tokens_word hw hrest⟩

theorem answers_negativeNumber (h : SignedWord cs w rest) (hx : Number.ofWord? w = some x) :
    Answers strict (operandOver operand) cs rest (· = some (.literal (.number (-x)))) := by
  have hbehind : Answers strict numberBehind? cs rest fun o => ∃ l, o = some l ∧ l.token = ⟨.word, w⟩ := by
    unfold numberBehind?
    refine (answers_advance h.sign).bind fun _ _ => answers_tryTakeIf (.stay rfl) h.word fun l hl => ?_
    unfold isNumber
    rw [Lexeme.kind_of_token hl, Lexeme.content_of_token hl, hx]
    rfl
  have hnumber : Answers strict negativeNumber? cs rest (· = some (-x)) := by
    rw [negativeNumber?_eq]
    refine (answers_attempt hbehind).bind ?_
    rintro o ⟨l, rfl, hl⟩
    refine answers_pure ?_
    rw [Option.bind_some, Lexeme.content_of_token hl, hx]
    rfl
  unfold operandOver
  refine answers_peek_front (front_of_tokens h.sign) fun l hkind _ => ?_
  simp only [hkind]
  refine hnumber.bind ?_
  rintro o rfl
  exact answers_pure rfl

/-- No operand begins with a minus sign before a word that is no number. -/
theorem answers_operandOver_sign (h : SignedWord cs w rest) (hw : Number.ofWord? w = none) :
    Answers strict (operandOver operand) cs cs (· = none) := by
  have hbehind : Answers strict numberBehind? cs (w.toList ++ rest) (· = none) := by
    unfold numberBehind?
    refine (answers_advance h.sign).bind fun _ _ => answers_tryTakeIf_none (.stay rfl) fun l hl => ?_
    rw [front_of_tokens h.word] at hl
    unfold isNumber
    rw [Lexeme.content_of_token hl, hw]
    exact Bool.and_false _
  have hnumber : Answers strict negativeNumber? cs cs (· = none) := by
    rw [negativeNumber?_eq]
    refine (answers_attempt_none hbehind).bind ?_
    rintro o rfl
    exact answers_pure rfl
  unfold operandOver
  refine answers_peek_front (front_of_tokens h.sign) fun l hkind _ => ?_
  simp only [hkind]
  refine hnumber.bind ?_
  rintro o rfl
  exact answers_pure rfl

theorem answers_text {raw s : String} (ht : tokens cs = ⟨.quotedString, raw⟩ :: tokens rest)
    (hs : Text.unquote? raw = some s) :
    Answers strict (operandOver operand) cs rest (· = some (.literal (.text s))) := by
  unfold operandOver
  refine answers_peek_front (front_of_tokens ht) fun l hkind hcontent => ?_
  simp only [hkind, hcontent, hs]
  exact (answers_advance ht).bind fun _ _ => answers_pure rfl

theorem answers_boolean {b : Bool}
    (ht : tokens cs = ⟨.keyword, if b then "true" else "false"⟩ :: tokens rest) :
    Answers strict (operandOver operand) cs rest (· = some (.literal (.boolean b))) := by
  unfold operandOver
  refine answers_peek_front (front_of_tokens ht) fun l hkind hcontent => ?_
  simp only [hkind]
  rw [if_pos (by cases b <;> simp [hcontent])]
  refine (answers_advance ht).bind fun _ _ => answers_pure ?_
  cases b <;> simp [hcontent]

theorem answers_variable {name : String} (ht : tokens cs = ⟨.word, "$" ++ name⟩ :: tokens rest)
    (hne : name ≠ "") (hrest : Follows LexemeKind.endsOperand rest) :
    Answers strict (operandOver operand) cs rest (· = some (.variable name)) := by
  unfold operandOver
  refine answers_peek_front (front_of_tokens ht) fun l hkind hcontent => ?_
  simp only [hkind]
  refine (answers_advance ht).bind fun _ _ => Answers.map ?_ fun e he => congrArg some he
  unfold wordOperand
  simp only [hcontent, ofWord?_dollar, variableName?_dollar hne]
  obtain ⟨-, mid, hskipped, hmid⟩ := hrest
  refine (answers_tryTake_none hskipped (of_decide_eq_true hmid)).bind ?_
  rintro o rfl
  exact answers_pure rfl

/-! ## Operands with parts -/

theorem answers_assign {name : String} {value : Expr} {minus : Prop}
    (ht : tokens cs = ⟨.word, "$" ++ name⟩ :: tokens (' ' :: '=' :: ' ' :: mid)) (hne : name ≠ "")
    (hmid : Begins minus mid) (hvalue : Answers strict (expression operand) mid rest (· = value)) :
    Answers strict (operandOver operand) cs rest (· = some (.assign name value)) := by
  have hequals : tokens ('=' :: ' ' :: mid) = ⟨.equals, "="⟩ :: tokens (' ' :: mid) :=
    tokens_symbol rfl
  have hskipped : Skipped Skip.whitespace.skips (' ' :: '=' :: ' ' :: mid) ('=' :: ' ' :: mid) := by
    refine skipped_blank nofun ?_
    rw [front_of_tokens hequals]
    rfl
  unfold operandOver
  refine answers_peek_front (front_of_tokens ht) fun l hkind hcontent => ?_
  simp only [hkind]
  refine (answers_advance ht).bind fun _ _ => Answers.map ?_ fun e he => congrArg some he
  unfold wordOperand
  simp only [hcontent, ofWord?_dollar, variableName?_dollar hne]
  refine (answers_tryTake hskipped hequals).bind ?_
  rintro o ⟨sign, rfl, -⟩
  refine (answers_skip hmid.skipped_blank).bind fun _ _ => hvalue.bind ?_
  rintro e rfl
  exact answers_pure rfl

theorem answers_brackets {e : Expr} (hskipped : Skipped Skip.whitespace.skips mid mid)
    (he : Answers strict (expression operand) mid (')' :: rest) (· = e)) :
    Answers strict (operandOver operand) ('(' :: mid) rest (· = some e) := by
  have hopen : tokens ('(' :: mid) = ⟨.leftParen, "("⟩ :: tokens mid := tokens_symbol rfl
  have hclose : tokens (')' :: rest) = ⟨.rightParen, ")"⟩ :: tokens rest := tokens_symbol rfl
  unfold operandOver
  refine answers_peek_front (front_of_tokens hopen) fun l hkind _ => ?_
  simp only [hkind]
  refine (answers_advance hopen).bind fun _ _ => ?_
  refine (answers_skip hskipped).bind fun _ _ => he.bind ?_
  rintro e rfl
  refine (answers_take (skipped_symbol rfl) hclose).bind fun _ _ => ?_
  exact answers_pure rfl

/-- No name of a call stands at the front of the text. -/
def NoName (cs : List Char) : Prop := (front cs).kind = .word → isName (front cs).content = false

/-- The parser answers with the expression. Unless it has to be strict, it may also find that none
begins here. -/
def Offers (strict : Prop) (p : Parser (Option Expr)) (cs stop : List Char) (e : Expr) : Prop :=
  Answers strict p cs stop (· = some e) ∨ ¬ strict ∧ Answers strict p cs cs (· = none)

theorem Offers.bind {β : Type} {p : Parser (Option Expr)} {f : Option Expr → Parser β}
    {stop : List Char} {Q : β → Prop} {e : Expr} (hp : Offers strict p cs mid e)
    (hsome : Answers strict (f (some e)) mid stop Q)
    (hnone : ¬ strict → Answers strict (f none) cs stop Q) : Answers strict (p >>= f) cs stop Q := by
  rcases hp with hp | ⟨hstrict, hp⟩
  · refine hp.bind ?_
    rintro o rfl
    exact hsome
  · refine hp.bind ?_
    rintro o rfl
    exact hnone hstrict

theorem answers_negate {e : Expr} (hname : NoName mid) (he : Offers strict operand mid rest e) :
    Answers strict (operandOver operand) ('!' :: mid) rest (· = some (.negate e)) := by
  have hmark : tokens ('!' :: mid) = ⟨.exclamation, "!"⟩ :: tokens mid := tokens_symbol rfl
  unfold operandOver
  refine answers_peek_front (front_of_tokens hmark) fun l hkind _ => ?_
  simp only [hkind]
  refine (answers_advance hmark).bind fun _ _ => Answers.map ?_ fun e he => congrArg some he
  unfold markedOperand
  refine answers_peek_bind fun l hl => ?_
  have hnot : ¬ (l.kind == .word && isName l.content) = true := by
    rw [Bool.and_eq_true, beq_iff_eq, Lexeme.kind_of_token hl, Lexeme.content_of_token hl]
    rintro ⟨hkind, hcontent⟩
    exact nomatch (hname hkind).symm.trans hcontent
  rw [if_neg hnot]
  exact he.bind (answers_pure rfl) fun hstrict => answers_fail hstrict _ l

theorem answers_call {name : String} {args : List Expr}
    (ht : tokens mid = ⟨.word, name⟩ :: tokens cs) (hname : isName name)
    (hargs : Answers strict (arguments operand) cs rest (· = args)) :
    Answers strict (operandOver operand) ('!' :: mid) rest (· = some (.call name args)) := by
  have hmark : tokens ('!' :: mid) = ⟨.exclamation, "!"⟩ :: tokens mid := tokens_symbol rfl
  unfold operandOver
  refine answers_peek_front (front_of_tokens hmark) fun l hkind _ => ?_
  simp only [hkind]
  refine (answers_advance hmark).bind fun _ _ => Answers.map ?_ fun e he => congrArg some he
  unfold markedOperand
  refine answers_peek_front (front_of_tokens ht) fun l hkind hcontent => ?_
  rw [if_pos (by rw [hkind, hcontent, hname]; rfl)]
  refine (answers_advance ht).bind fun _ _ => hargs.bind ?_
  rintro _ rfl
  exact answers_pure (by rw [hcontent])

/-! ## Expressions -/

/-- No operator goes on with an expression that ends before the text. -/
def NoLink (strict : Prop) (operand : Parser (Option Expr)) (rest : List Char) : Prop :=
  ∀ n links, Answers strict (linksFrom operand n links) rest rest (· = links.reverse)

theorem noLink (hrest : Follows LexemeKind.endsExpression rest) : NoLink strict operand rest := by
  intro n links
  obtain ⟨-, mid, hskipped, hmid⟩ := hrest
  have hoperator : ∀ l : Lexeme, l.token = front mid → (Operator.ofKind? l.kind).isSome = false := by
    intro l hl
    rw [Lexeme.kind_of_token hl]
    unfold LexemeKind.endsExpression at hmid
    rw [Bool.and_eq_true, Option.isNone_iff_eq_none] at hmid
    rw [hmid.2]
    rfl
  unfold linksFrom
  refine (answers_tryTakeIf_none hskipped hoperator).bind ?_
  rintro o rfl
  exact answers_pure rfl

theorem answers_expression? {first e : Expr} {links : List Link}
    (hfirst : Answers strict operand cs mid (· = some first))
    (hlinks : Answers strict (linksFrom operand maxDepth [.operand first]) mid rest (· = links))
    (hresolve : Chain.resolve links = some e) (hdepth : strict → e.depth ≤ maxDepth) :
    Answers strict (expression? operand) cs rest (· = some e) := by
  unfold expression?
  refine answers_peek_bind fun start _ => hfirst.bind ?_
  rintro o rfl
  refine hlinks.bind ?_
  rintro links rfl
  simp only [hresolve]
  by_cases hdeep : e.depth > maxDepth
  · rw [if_pos hdeep]
    exact answers_fail (fun hstrict => Nat.not_lt.mpr (hdepth hstrict) hdeep) _ start
  · rw [if_neg hdeep]
    exact answers_pure rfl

theorem answers_expression?_none (h : Answers strict operand cs cs (· = none)) :
    Answers strict (expression? operand) cs cs (· = none) := by
  unfold expression?
  refine answers_peek_bind fun start _ => h.bind ?_
  rintro o rfl
  exact answers_pure rfl

theorem answers_expression?_operand {e : Expr} (he : Answers strict operand cs rest (· = some e))
    (hdepth : strict → e.depth ≤ maxDepth) (hrest : NoLink strict operand rest) :
    Answers strict (expression? operand) cs rest (· = some e) :=
  answers_expression? he (hrest maxDepth [.operand e]) (Chain.resolve_operand e) hdepth

theorem Operator.sign_eq (op : Operator) : ∃ c kind, op.sign.toList = [c] ∧
    LexemeKind.ofChar? c = some kind ∧ Operator.ofKind? kind = some op := by
  cases op
  · exact ⟨'+', .plus, by simp [Operator.sign], rfl, rfl⟩
  · exact ⟨'-', .minus, by simp [Operator.sign], rfl, rfl⟩
  · exact ⟨'*', .asterisk, by simp [Operator.sign], rfl, rfl⟩
  · exact ⟨'/', .slash, by simp [Operator.sign], rfl, rfl⟩

theorem answers_linksFrom_operator (n : Nat) {links : List Link} {op : Operator} {right : Expr}
    {minus : Prop} (hmid : Begins minus mid) (hright : Offers strict operand mid rest right)
    (hrest : NoLink strict operand rest) :
    Answers strict (linksFrom operand (n + 1) links) (' ' :: (op.sign.toList ++ ' ' :: mid)) rest
      (· = links.reverse ++ [.operator op, .operand right]) := by
  obtain ⟨c, kind, hsign, hkind, hop⟩ := Operator.sign_eq op
  rw [hsign, List.singleton_append]
  have ht : tokens (c :: ' ' :: mid) = ⟨kind, String.ofList [c]⟩ :: tokens (' ' :: mid) :=
    tokens_symbol hkind
  have hskipped : Skipped Skip.whitespace.skips (' ' :: c :: ' ' :: mid) (c :: ' ' :: mid) := by
    refine skipped_blank nofun ?_
    rw [front_symbol hkind]
    exact isLayout_of_ofChar? hkind
  unfold linksFrom
  refine (answers_tryTakeIf hskipped ht fun l hl => ?_).bind ?_
  · rw [Lexeme.kind_of_token hl, hop]
    rfl
  · rintro o ⟨l, rfl, hl⟩
    simp only [Lexeme.kind_of_token hl, hop]
    refine (answers_skip hmid.skipped_blank).bind fun _ _ => hright.bind ?_ fun hstrict => ?_
    · refine (hrest n _).weaken fun out hout => ?_
      rw [hout]
      simp
    · exact answers_peek_bind fun l _ => answers_fail hstrict _ l

theorem resolve_binary (left : Expr) (op : Operator) (right : Expr) :
    Chain.resolve [.operand left, .operator op, .operand right] = some (.binary left op right) := by
  cases op <;> rfl

theorem answers_expression?_binary {left right : Expr} {op : Operator} {minus : Prop}
    (hleft : Answers strict operand cs (' ' :: (op.sign.toList ++ ' ' :: mid)) (· = some left))
    (hmid : Begins minus mid) (hright : Offers strict operand mid rest right)
    (hdepth : strict → (Expr.binary left op right).depth ≤ maxDepth)
    (hrest : NoLink strict operand rest) :
    Answers strict (expression? operand) cs rest (· = some (.binary left op right)) :=
  answers_expression? hleft (answers_linksFrom_operator 255 hmid hright hrest)
    (resolve_binary left op right) hdepth

theorem offers_expression? {first e : Expr} (hfirst : Offers strict operand cs mid first)
    (he : Answers strict operand cs mid (· = some first) →
      Answers strict (expression? operand) cs rest (· = some e)) :
    Offers strict (expression? operand) cs rest e :=
  hfirst.imp he fun ⟨hstrict, hnone⟩ => ⟨hstrict, answers_expression?_none hnone⟩

theorem answers_expression {e : Expr} (he : Offers strict (expression? operand) cs rest e) :
    Answers strict (expression operand) cs rest (· = e) := by
  unfold expression
  refine he.bind (answers_pure rfl) fun hstrict => ?_
  exact answers_peek_bind fun l _ => answers_fail hstrict _ l

/-- An operator goes on before the text with an expression, and no operand follows. -/
def Stalls (strict : Prop) (operand : Parser (Option Expr)) (rest : List Char) : Prop :=
  ∀ n links stop P, Answers strict (linksFrom operand n links) rest stop P

theorem Stalls.answers_expression? {e : Expr} {stop : List Char} {P : Option Expr → Prop}
    (hrest : Stalls strict operand rest) (he : Answers strict operand cs rest (· = some e)) :
    Answers strict (expression? operand) cs stop P := by
  unfold Parser.expression?
  refine answers_peek_bind fun start _ => he.bind ?_
  rintro o rfl
  exact (hrest maxDepth _ stop fun _ => False).bind nofun

theorem stalls_sign {after : List Char} (hstrict : ¬ strict)
    (hskipped : Skipped Skip.whitespace.skips rest mid) (h : SignedWord mid w after)
    (hoperand : ∀ stop P, Answers strict operand (w.toList ++ after) stop P) :
    Stalls strict operand rest := by
  intro n links stop P
  unfold linksFrom
  refine (answers_tryTakeIf hskipped h.sign fun l hl => ?_).bind ?_
  · rw [Lexeme.kind_of_token hl]
    rfl
  · rintro o ⟨l, rfl, hl⟩
    cases n with
    | zero => exact answers_fail hstrict _ l
    | succ n =>
      have hword : (front (w.toList ++ after)).kind.isLayout = false := by
        rw [front_of_tokens h.word]
        rfl
      simp only [Lexeme.kind_of_token hl, Operator.ofKind?]
      refine (answers_skip (skipped_stay hword)).bind fun _ _ => ?_
      exact (hoperand stop fun _ => False).bind fun _ h => h.elim

/-! ## Arguments -/

theorem answers_argumentSeparator (isFirst : Bool) (hskipped : Skipped Skip.whitespace.skips cs mid)
    (hcomma : (front mid).kind ≠ .comma) :
    Answers strict (argumentSeparator isFirst) cs mid fun _ => True := by
  unfold argumentSeparator
  refine (answers_skip hskipped).bind fun _ _ => ?_
  cases isFirst with
  | true => exact answers_pure trivial
  | false =>
    have hstay : Skipped Skip.nothing.skips mid mid := .stay rfl
    refine (answers_tryTake_none hstay hcomma).bind fun _ _ => ?_
    exact answers_skip (.stay hskipped.front_kind)

theorem answers_argument? {P : Expr → Prop} {minus : Prop} (isFirst : Bool) (hmid : Begins minus mid)
    (he : Answers strict (expression? operand) mid rest fun o => ∃ e, o = some e ∧ P e) :
    Answers strict (argument? operand isFirst) (' ' :: mid) rest fun o => ∃ e, o = some e ∧ P e := by
  have hcomma : (front mid).kind ≠ .comma := by
    intro hkind
    have hbegins := hmid.kind
    rw [hkind] at hbegins
    exact nomatch hbegins
  rw [argument?_eq]
  refine answers_attempt ((answers_argumentSeparator isFirst hmid.skipped_blank hcomma).bind ?_)
  exact fun _ _ => he

theorem answers_operandOver_none (h : (front cs).kind.beginsOperand = false) :
    Answers strict (operandOver operand) cs cs (· = none) := by
  unfold operandOver
  refine answers_peek_bind fun l hl => ?_
  rw [← Lexeme.kind_of_token hl] at h
  split
  case h_7 => exact answers_pure rfl
  all_goals
    rename_i hkind
    rw [hkind] at h
    exact nomatch h

theorem answers_argument?_none (isFirst : Bool) (hskipped : Skipped Skip.whitespace.skips cs mid)
    (hcomma : (front mid).kind ≠ .comma) (hmid : Answers strict operand mid mid (· = none)) :
    Answers strict (argument? operand isFirst) cs cs (· = none) := by
  have hseparator : Answers strict (argumentSeparator isFirst) cs mid _ :=
    answers_argumentSeparator isFirst hskipped hcomma
  have hnone := answers_expression?_none hmid
  rw [argument?_eq]
  exact answers_attempt_none (hseparator.bind fun _ _ => hnone)

theorem answers_arguments_nil (h : Answers strict (argument? operand true) cs cs (· = none)) :
    Answers strict (arguments operand) cs cs (· = []) := by
  unfold arguments
  refine h.bind ?_
  rintro o rfl
  exact answers_pure rfl

theorem answers_arguments_cons {e : Expr} {es : List Expr}
    (hoperand : Reads operand (Optionally Expr.Yields))
    (he : Answers strict (argument? operand true) cs mid fun o => ∃ e', o = some e' ∧ e = e')
    (hmore : Runs strict (argument? operand false) Eq es mid rest) :
    Answers strict (arguments operand) cs rest (· = e :: es) := by
  unfold arguments
  refine he.bind ?_
  rintro o ⟨e, rfl, rfl⟩
  have hprogress := (reads_argument?_ne_nil hoperand false).progress
  refine (hmore.answers hprogress).bind fun others hothers => answers_pure ?_
  rw [List.forall₂_eq_eq_eq] at hothers
  rw [hothers]

theorem answers_arguments_fault {stop : List Char} {P : List Expr → Prop}
    (h : Answers strict (argument? operand true) cs stop fun _ => False) :
    Answers strict (arguments operand) cs stop P := by
  unfold arguments
  exact h.bind nofun

/-- Where an expression faults, so does an argument. -/
theorem answers_argument?_fault {minus : Prop} {stop : List Char} (isFirst : Bool)
    (hmid : Begins minus mid) (h : Answers strict (expression? operand) mid stop fun _ => False) :
    Answers strict (argument? operand isFirst) (' ' :: mid) stop fun _ => False := by
  refine (answers_argument? (P := fun _ => False) isFirst hmid (h.weaken nofun)).weaken ?_
  rintro o ⟨e, -, hnone⟩
  exact hnone.elim

end Parser

end CommandScript
