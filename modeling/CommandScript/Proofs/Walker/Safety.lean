import CommandScript.Proofs.Parser.Marks
import CommandScript.Proofs.Parser.Seam
import CommandScript.Proofs.Walker.Statements

/-!
Parsing by index is safe. On all lexemes that end with the end of a source, whatever stands before it,
each walk ends, with an answer or a fault; no index is without lexeme or link; the counter of operands
stays within its limit and is given back; and the marks are as they were. What stands behind the first
end of a source has no part in it.
-/

namespace CommandScript
set_option autoImplicit false

/-! ## Productions -/

/-- The parts of the parser that call each other, with what they answer. -/
inductive Production : Type → Type where
  | statements (inBody : Bool) : Production (List Statement)
  | statement? : Production (Option Statement)
  | declaration : Production Statement
  | command (place : Location) : Production Statement
  | expressionStatement (place : Location) : Production Statement
  | terminator : Production Unit
  | parameters : Production (List Parameter)
  | identifier (mode : Skip) : Production String
  | expression : Production Expr
  | expression? : Production (Option Expr)
  | arguments : Production (List Expr)
  | operand : Production (Option Expr)
  | nested : Production (Option Expr)
  | wordOperand (l : Lexeme) : Production Expr
  | markedOperand : Production Expr
  | negativeNumber? : Production (Option Float)

namespace Production

variable {α : Type}

noncomputable def walk (ls : List Lexeme) : Production α → Walker α
  | statements inBody => Walker.statementsFrom ls inBody []
  | statement? => Walker.statement? ls
  | declaration => do
    let l ← Walker.peek ls
    Walker.declaration ls l.start
  | command place => Walker.command ls place
  | expressionStatement place => Walker.expressionStatement ls place
  | terminator => Walker.terminator ls
  | parameters => Walker.parameters ls
  | identifier mode => Walker.identifier ls mode
  | expression => Walker.expression ls
  | expression? => Walker.expression? ls
  | arguments => Walker.argumentsFrom ls []
  | operand => Walker.operand ls
  | nested => do
    let l ← Walker.peek ls
    Walker.nested ls l
  | wordOperand l => Walker.wordOperand ls l
  | markedOperand => Walker.markedOperand ls
  | negativeNumber? => Walker.negativeNumber? ls

/-- How many operands a production may be inside of when it is called. Statements are inside none. -/
def maxNesting : Production α → Nat
  | expression | expression? | arguments | operand | nested | wordOperand _ | markedOperand
  | negativeNumber? => Parser.maxDepth
  | _ => 0

/-- What a declaration is where it is allowed, and where it is not. -/
def declared (inFunction : Bool) (l : Lexeme) : Parser Statement :=
  if inFunction then Parser.fail .nestedFunction l else Parser.declaration l

/-- The parser that a production is, inside `n` operands. -/
def parser (n : Nat) (inFunction : Bool) : Production α → Parser α
  | statements inBody => Parser.many (Parser.statement? inBody (declared inFunction))
  | statement? => do
    let l ← Parser.peek
    if l.kind = .comment then
      let _ ← Parser.advance
      pure none
    else some <$> Parser.statement (declared inFunction)
  | declaration => do
    let l ← Parser.peek
    let _ ← Parser.advance
    declared inFunction l
  | command place => Parser.command place
  | expressionStatement place => Parser.expressionStatement place
  | terminator => Parser.terminator
  | parameters => Parser.parameters
  | identifier mode => Parser.identifier mode
  | expression => Parser.expression (Parser.operandWithin (Parser.maxDepth - n))
  | expression? => Parser.expression? (Parser.operandWithin (Parser.maxDepth - n))
  | arguments => Parser.arguments (Parser.operandWithin (Parser.maxDepth - n))
  | operand => Parser.operandWithin (Parser.maxDepth - n)
  | nested => Parser.operandOver (Parser.operandWithin (Parser.maxDepth - n))
  | wordOperand l => Parser.wordOperand (Parser.operandWithin (Parser.maxDepth - n)) l
  | markedOperand => Parser.markedOperand (Parser.operandWithin (Parser.maxDepth - n))
  | negativeNumber? => Parser.negativeNumber?

open CommandScript.Parser in
theorem balanced (p : Production α) (n : Nat) (inFunction : Bool) :
    Parser.Balanced (p.parser n inFunction) := by
  have h := hereditary_balanced
  have hoperand := h.operandWithin (maxDepth - n)
  have hdeclared (l : Lexeme) : Balanced (declared inFunction l) := by
    cases inFunction with
    | true => exact h.nestedFunction l
    | false => exact h.declaration l
  cases p with
  | statements inBody => exact h.many (h.statement? hdeclared inBody)
  | statement? =>
    refine h.after h.peek fun l => ?_
    split
    · exact h.after h.advance fun _ => h.pure none
    · exact h.map _ (h.statement hdeclared)
  | declaration => exact h.after h.peek fun l => h.after h.advance fun _ => hdeclared l
  | command place => exact h.command place
  | expressionStatement place => exact h.expressionStatement place
  | terminator => exact h.terminator
  | parameters => exact h.parameters
  | identifier mode => exact h.identifier mode
  | expression => exact h.expression hoperand
  | expression? => exact h.expression? hoperand
  | arguments => exact h.arguments hoperand
  | operand => exact hoperand
  | nested => exact h.operandOver hoperand
  | wordOperand l => exact h.wordOperand hoperand l
  | markedOperand => exact h.markedOperand hoperand
  | negativeNumber? => exact h.negativeNumber?

section

open Walker

variable {ls : List Lexeme} {n : Nat} {inFunction : Bool}

theorem declared_meets (hends : Ends ls) (w : Walk) (c : Cursor) (hlevel : w.Level 0 inFunction)
    (hshows : w.Shows ls c) :
    Meets ls 0 inFunction (Walker.declaration ls c.peek.start w)
      ((Parser.advance >>= fun _ => declared inFunction c.peek) c) := by
  cases inFunction with
  | true => exact nestedDeclaration_meets hlevel hshows
  | false => exact declaration_meets hends hlevel hshows

theorem progress_declared (inBody : Bool) :
    Parser.Progresses (Parser.statement? inBody (declared inFunction)) := by
  cases inFunction with
  | true => exact fun l => Parser.progress_statement? Parser.reads_nestedFunction inBody l
  | false => exact fun l => Parser.progress_statement? Parser.reads_declaration inBody l

/-- Each production is imitated on its levels. -/
theorem imitates (hends : Ends ls) (p : Production α) (hn : n ≤ p.maxNesting) :
    Imitates ls n inFunction (p.walk ls) (p.parser n inFunction) := by
  have hoperand (h : n ≤ Parser.maxDepth) : Imitates ls n inFunction (Walker.operand ls)
      (Parser.operandWithin (Parser.maxDepth - n)) :=
    imitates_operandWithin hends _ (by omega)
  have hreads := Parser.reads_operandWithin (Parser.maxDepth - n)
  cases p with
  | statements inBody =>
    obtain rfl := Nat.le_zero.mp hn
    have hprogress : Parser.Progresses (Parser.statement? inBody (declared inFunction)) :=
      progress_declared inBody
    have hstatements := imitates_statementsFrom hends (declared_meets hends) hprogress []
    rw [Parser.manyBehind_nil] at hstatements
    exact hstatements
  | statement? =>
    obtain rfl := Nat.le_zero.mp hn
    intro w c hlevel hshows
    by_cases hcomment : c.peek.kind = .comment
    · have happly : statement?.parser 0 inFunction c = (Parser.advance >>= fun _ => pure none) c :=
        congrFun (if_pos hcomment) c
      rw [happly]
      exact statement?_comment hlevel hshows hcomment
    · have happly : statement?.parser 0 inFunction c =
          (some <$> Parser.statement (declared inFunction)) c :=
        congrFun (if_neg hcomment) c
      rw [happly]
      exact statement?_meets hends (declared_meets hends) hlevel hshows hcomment
  | declaration =>
    obtain rfl := Nat.le_zero.mp hn
    intro w c hlevel hshows
    apply meets_bind (imitates_peek w c hlevel hshows)
    intro l w' c' hpeek hlevel' hshows'
    cases hpeek
    exact declared_meets hends w' c hlevel' hshows'
  | command place =>
    obtain rfl := Nat.le_zero.mp hn
    exact imitates_command hends place
  | expressionStatement place =>
    obtain rfl := Nat.le_zero.mp hn
    exact imitates_expressionStatement hends place
  | terminator =>
    obtain rfl := Nat.le_zero.mp hn
    exact imitates_terminator hends
  | parameters =>
    obtain rfl := Nat.le_zero.mp hn
    exact imitates_parameters hends
  | identifier mode =>
    obtain rfl := Nat.le_zero.mp hn
    exact imitates_identifier hends mode
  | expression => exact imitates_expression hends (hoperand hn)
  | expression? => exact imitates_expression? hends (hoperand hn)
  | arguments => exact imitates_argumentsFrom hends (hoperand hn) hreads []
  | operand => exact hoperand hn
  | nested =>
    intro w c hlevel hshows
    change Meets ls n inFunction ((Walker.peek ls >>= fun l => Walker.nested ls l) w) _
    rw [bind_apply, peek_apply hshows]
    exact nested_meets hends (hoperand hn) hreads hlevel hshows
  | wordOperand l => exact imitates_wordOperand hends (hoperand hn) l
  | markedOperand => exact imitates_markedOperand hends (hoperand hn) hreads
  | negativeNumber? => exact imitates_negativeNumber? hends

end

end Production

/-! ## Places in a list of lexemes -/

/-- The walk stands on a lexeme, and so do its marks. -/
structure Walk.InRange (ls : List Lexeme) (w : Walk) : Prop where
  index : w.index < ls.length
  marks : ∀ i ∈ w.marks, i < ls.length

namespace Walk

variable {ls : List Lexeme} {w : Walk}

theorem exists_position {i : Nat} (h : i < ls.length) : ∃ p : Position, p.index = i ∧ p.In ls := by
  refine ⟨⟨i, ls[i], ls.drop (i + 1)⟩, rfl, ?_⟩
  exact List.drop_eq_getElem_cons h

theorem exists_positions {is : List Nat} (h : ∀ i ∈ is, i < ls.length) :
    ∃ ps : List Position, ps.map Position.index = is ∧ ∀ p ∈ ps, p.In ls := by
  induction is with
  | nil => exact ⟨[], rfl, nofun⟩
  | cons i is ih =>
    obtain ⟨hi, his⟩ := List.forall_mem_cons.mp h
    obtain ⟨p, hp, hin⟩ := exists_position hi
    obtain ⟨ps, hps, hall⟩ := ih his
    exact ⟨p :: ps, congrArg₂ List.cons hp hps, List.forall_mem_cons.mpr ⟨hin, hall⟩⟩

theorem InRange.exists_cursor (h : w.InRange ls) : ∃ c : Cursor, w.Shows ls c := by
  obtain ⟨p, hp, hin⟩ := exists_position h.index
  obtain ⟨ps, hps, hall⟩ := exists_positions h.marks
  exact ⟨⟨p, ps⟩, hp.symm, hin, hps.symm, hall⟩

theorem Shows.inRange {c : Cursor} (h : w.Shows ls c) : w.InRange ls := by
  have hlength := h.position.length
  refine ⟨by rw [h.index]; omega, fun i hi => ?_⟩
  rw [h.marks] at hi
  obtain ⟨p, hp, rfl⟩ := List.mem_map.mp hi
  have hlength := (h.checkpoints p hp).length
  omega

end Walk

/-! ## Safety -/

/-- What a walk from `w` has to come to: an answer or a fault, on the level on which it began, and never
deeper than allowed. Behind an answer it stands on a lexeme, and its marks are those it had. -/
structure Production.Ended {α : Type} (ls : List Lexeme) (w : Walk) (r : Except Halt α) (w' : Walk) :
    Prop where
  inRange : r ≠ .error .outOfRange
  nesting : w'.nesting = w.nesting
  inFunction : w'.inFunction = w.inFunction
  deepest : w'.deepest ≤ Parser.maxDepth
  answered : ∀ a, r = .ok a → w'.InRange ls ∧ w'.marks = w.marks

theorem Production.exists_ended {α : Type} {ls : List Lexeme} (hends : Ends ls) (p : Production α)
    {w : Walk} (hrange : w.InRange ls) (hnesting : w.nesting ≤ p.maxNesting)
    (hdeepest : w.deepest ≤ Parser.maxDepth) :
    ∃ r w', p.walk ls w = some (r, w') ∧ Ended ls w r w' := by
  obtain ⟨c, hshows⟩ := hrange.exists_cursor
  have hmeets := p.imitates hends hnesting w c ⟨rfl, rfl, hdeepest⟩ hshows
  rcases hr : p.parser w.nesting w.inFunction c with e | ⟨a, c'⟩
  · rw [hr] at hmeets
    obtain ⟨w', hw, hlevel⟩ := hmeets
    exact ⟨_, w', hw, nofun, hlevel.nesting, hlevel.inFunction, hlevel.deepest, nofun⟩
  · rw [hr] at hmeets
    obtain ⟨w', hw, hlevel, hshows'⟩ := hmeets
    refine ⟨_, w', hw, nofun, hlevel.nesting, hlevel.inFunction, hlevel.deepest, fun _ _ => ?_⟩
    refine ⟨hshows'.inRange, ?_⟩
    rw [hshows'.marks, p.balanced _ _ c a c' hr, hshows.marks]

/-! ## Lexemes behind the end -/

/-- The lexemes up to the first end of a source, and that end. -/
def upToEnd : List Lexeme → List Lexeme
  | [] => []
  | l :: ls => if l.kind = .endOfFile then [l] else l :: upToEnd ls

theorem alongside_upToEnd {ls : List Lexeme} (h : Ends ls) : Alongside 0 none (upToEnd ls) ls := by
  induction ls with
  | nil => exact absurd rfl h.ne_nil
  | cons l ls ih =>
    unfold upToEnd
    split
    · rename_i hkind
      exact .closed rfl hkind h
    · rename_i hkind
      refine .cons hkind (ih ?_)
      obtain ⟨last, hlast, hend⟩ := h
      cases ls with
      | nil =>
        obtain rfl : l = last := Option.some.inj hlast
        exact absurd hend hkind
      | cons l' ls =>
        rw [List.getLast?_cons_cons] at hlast
        exact ⟨last, hlast, hend⟩

/-- What stands behind the first end does not matter. -/
theorem Script.ofLexemes_upToEnd {ls : List Lexeme} (h : Ends ls) :
    Script.ofLexemes (upToEnd ls) = Script.ofLexemes ls := by
  have halong : Alongside 0 none (upToEnd ls) (Cursor.ofLexemes ls).ahead :=
    (Cursor.ahead_ofLexemes_of_ends h).symm ▸ alongside_upToEnd h
  have hscript := script_of_alongside halong (Cursor.checkpoints_ofLexemes ls)
  cases hr : ofLexemes (upToEnd ls) with
  | error e =>
    rw [hr] at hscript
    exact hscript.symm
  | ok more =>
    rw [hr] at hscript
    dsimp only at hscript
    rw [Statement.map_down_zero] at hscript
    exact hscript.symm

namespace Walker

theorem shows_start {ls : List Lexeme} (hends : Ends ls) :
    Walk.start.Shows ls (Cursor.ofLexemes ls) := by
  cases ls with
  | nil => exact absurd rfl hends.ne_nil
  | cons l ls => exact ⟨rfl, rfl, rfl, nofun⟩

/-- From the first lexeme on the walk answers with the script, or has the fault, of the lexemes. -/
theorem script_apply {ls : List Lexeme} (hends : Ends ls) :
    ∃ w, script ls Walk.start = some ((Script.ofLexemes ls).mapError Halt.fault, w) := by
  have hlevel : Walk.start.Level 0 false := ⟨rfl, rfl, Nat.zero_le _⟩
  have hmeets := imitates_script hends Walk.start (Cursor.ofLexemes ls) hlevel (shows_start hends)
  unfold Script.ofLexemes
  rcases hr : Parser.script (Cursor.ofLexemes ls) with e | ⟨ss, c⟩
  · rw [hr] at hmeets
    obtain ⟨w, hw, -⟩ := hmeets
    exact ⟨w, hw⟩
  · rw [hr] at hmeets
    obtain ⟨w, hw, -⟩ := hmeets
    exact ⟨w, hw⟩

/-- Parsing by index is safe on all lexemes that end with the end of a source. It ends, with the script
or the fault of the lexemes; so does each production, from all places and on all levels on which it is
called, and it is then as `Ended` says; and lexemes that agree up to their first end have the same
outcome. -/
theorem parsing_safe {ls : List Lexeme} (hends : Ends ls) :
    (∃ w, script ls Walk.start = some ((Script.ofLexemes ls).mapError Halt.fault, w) ∧
      Production.Ended ls Walk.start ((Script.ofLexemes ls).mapError Halt.fault) w) ∧
    (∀ {α : Type} (p : Production α) (w : Walk), w.InRange ls → w.nesting ≤ p.maxNesting →
      w.deepest ≤ Parser.maxDepth → ∃ r w', p.walk ls w = some (r, w') ∧ Production.Ended ls w r w') ∧
    ∀ ls', Ends ls' → upToEnd ls' = upToEnd ls →
      (script ls' Walk.start).map Prod.fst = (script ls Walk.start).map Prod.fst := by
  obtain ⟨w, hw⟩ := script_apply hends
  refine ⟨⟨w, hw, ?_⟩, fun p w hrange hnesting hdeepest => ?_, fun ls' hends' hsame => ?_⟩
  · obtain ⟨r, w', hw', hended⟩ := (Production.statements false).exists_ended hends
      (shows_start hends).inRange (Nat.le_refl _) (Nat.zero_le _)
    obtain ⟨rfl, rfl⟩ := Prod.mk.inj (Option.some.inj (hw'.symm.trans hw))
    exact hended
  · exact p.exists_ended hends hrange hnesting hdeepest
  · obtain ⟨w', hw'⟩ := script_apply hends'
    rw [hw, hw', Option.map_some, Option.map_some, ← Script.ofLexemes_upToEnd hends, ← hsame,
      Script.ofLexemes_upToEnd hends']

/-- Lexemes that no source has: two words with nothing between them, and more behind an end, among that
a quoted string without closing quote. -/
def scrambled : List Lexeme :=
  [⟨.word, "a", .start, .start⟩, ⟨.word, "1", .start, .start⟩, ⟨.endOfFile, "", .start, .start⟩,
    ⟨.quotedString, "\"b", .start, .start⟩, ⟨.endOfFile, "", .start, .start⟩]

/-- The words are a command with its argument; from the quoted string on, inside 255 operands, an
operand is at fault; and the lexemes up to the first end are a command as well. -/
theorem parsing_safe_scrambled :
    (∃ w, script scrambled Walk.start = some ((Script.ofLexemes scrambled).mapError Halt.fault, w) ∧
      Production.Ended scrambled Walk.start ((Script.ofLexemes scrambled).mapError Halt.fault) w) ∧
    (∃ r w', Production.operand.walk scrambled ⟨3, [0], true, 255, 256⟩ = some (r, w') ∧
      Production.Ended scrambled ⟨3, [0], true, 255, 256⟩ r w') ∧
    (script (scrambled.take 3) Walk.start).map Prod.fst =
      (script scrambled Walk.start).map Prod.fst := by
  have hends : Ends scrambled := ⟨_, rfl, rfl⟩
  have hrange : (⟨3, [0], true, 255, 256⟩ : Walk).InRange scrambled := ⟨by decide, by decide⟩
  refine ⟨(parsing_safe hends).1, ?_, ?_⟩
  · exact (parsing_safe hends).2.1 .operand _ hrange (by decide) (by decide)
  · exact (parsing_safe hends).2.2 (scrambled.take 3) ⟨_, rfl, rfl⟩ rfl

end Walker

end CommandScript
