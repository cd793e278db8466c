import CommandScript.Proofs.Printing.Declarations

/-!
Printed scripts. A script that was parsed is printed with one statement below the other, and the
text is parsed to the same script again, apart from the places of its statements. That is so for
every printable script, and for every steady one whose text can be parsed at all.
-/

namespace CommandScript
set_option autoImplicit false

open CommandScript.Parser

def Script.Printable (script : Script) : Prop := ∀ s ∈ script, s.Printable

instance (script : Script) : Decidable script.Printable := Statement.decidablePrintableAll script

def Script.unplaced (script : Script) : Script := Statement.unplacedAll script

theorem Script.Printable.steady {script : Script} (h : script.Printable) : script.Steady :=
  Statement.steady_of_printableAll script h

variable {strict : Prop} {cs rest : List Char}

namespace Parser

theorem answers_statement_declaration {place : Location} {name : String} {params : List Parameter}
    {body : List Statement}
    (h : (Statement.declaration place name params body).Readable strict) :
    Answers strict (statement declaration)
      ((Statement.declaration place name params body).source.toList ++ rest) rest
      (·.unplaced = (Statement.declaration place name params body).unplaced) := by
  obtain ⟨hname, hparams, hbody⟩ := h.of_declaration
  rw [Statement.toList_source_declaration]
  unfold statement
  refine answers_peek_front (front_of_tokens tokens_function) fun l hkind hcontent => ?_
  simp only [hkind]
  rw [if_pos hcontent]
  refine (answers_advance tokens_function).bind fun _ _ => ?_
  exact answers_declaration hname hparams hbody

/-- Only a declaration leaves the end of its line. -/
theorem answers_statement {s : Statement} {next : List Char} (hs : s.Readable strict)
    (hline : EndsLine rest next) :
    ∃ stop, (stop = next ∨ stop = rest) ∧
      Answers strict (statement declaration) (s.source.toList ++ rest) stop
        (·.unplaced = s.unplaced) := by
  cases s with
  | command => exact ⟨next, .inl rfl, answers_statement_plain hs rfl hline⟩
  | expression => exact ⟨next, .inl rfl, answers_statement_plain hs rfl hline⟩
  | declaration => exact ⟨rest, .inr rfl, answers_statement_declaration hs⟩

end Parser

/-! ## Scripts -/

namespace Script

theorem toList_source_cons (s : Statement) (ss : Script) :
    ∃ rest, (Script.source (s :: ss)).toList = s.source.toList ++ rest ∧
      EndsLine rest (Script.source ss).toList := by
  unfold Script.source
  rw [List.map_cons, toList_intercalate_cons]
  refine ⟨_, rfl, ?_⟩
  cases ss with
  | nil => exact .inr ⟨rfl, rfl⟩
  | cons s' ss =>
    left
    rw [List.map_cons, List.flatMap_cons, toList_intercalate_cons]
    rfl

theorem runs_source {ss : Script} (hss : ∀ s ∈ ss, s.Readable strict)
    (hcs : cs = (Script.source ss).toList ∨ cs = '\n' :: (Script.source ss).toList) :
    Runs strict (statement? false declaration) (fun s s' => s'.unplaced = s.unplaced) ss cs [] := by
  induction ss generalizing cs with
  | nil =>
    refine .stop (answers_statement?_nil (.ofLine hcs (.stay ?_)))
    change (front []).kind.isSeparator = false
    rw [front_nil]
    rfl
  | cons s ss ih =>
    rw [List.forall_mem_cons] at hss
    obtain ⟨rest, hsource, hline⟩ := toList_source_cons s ss
    rw [hsource] at hcs
    have hbegins := Statement.front_source hss.1.wellFormed hline.follows.boundary
    have hskipped := Skipped.ofLine hcs (.stay (LexemeKind.isSeparator_of_beginsStatement hbegins))
    obtain ⟨stop, hstop, hs⟩ := answers_statement hss.1 hline
    have hnext : stop = (Script.source ss).toList ∨ stop = '\n' :: (Script.source ss).toList := by
      rcases hstop with rfl | rfl
      · exact .inl rfl
      · rcases hline with hline | ⟨hrest, hend⟩
        · exact .inr hline
        · exact .inl (hrest.trans hend.symm)
    exact .step (answers_statement? hskipped hbegins hs) (ih hss.2 hnext)

theorem atFront_lexemes (source : String) :
    (Cursor.ofLexemes (lexemes source)).AtFront source.toList := by
  obtain ⟨ls, stop, hlexemes, htokens, -⟩ := lexemes_eq source
  unfold Cursor.AtFront closedTokens
  rw [hlexemes, Cursor.ahead_ofLexemes, List.map_append, htokens]
  rfl

/-- The parser reads statements that can be read back from their own text, unless it faults. -/
theorem answers_of_readable {script : Script} (h : ∀ s ∈ script, s.Readable strict) :
    Answers strict Parser.script script.source.toList []
      fun again => Statement.unplacedAll again = Statement.unplacedAll script := by
  have hanswers := (runs_source h (.inl rfl)).answers (progress_statement? reads_declaration false)
  exact hanswers.weaken fun _ => Statement.unplacedAll_eq

theorem answers_source {source : String} {script : Script}
    (hparse : Script.parse source = .ok script) (hsteady : script.Steady)
    (hprint : strict → script.Printable) :
    Answers strict Parser.script script.source.toList []
      fun again => Statement.unplacedAll again = Statement.unplacedAll script :=
  answers_of_readable (Statement.Readable.forall_mem (Script.parse_wellFormed hparse) hsteady hprint)

/-- A script that was parsed is parsed again from its own text, apart from the places. -/
theorem reparse_source {source : String} {script : Script}
    (hparse : Script.parse source = .ok script) (hprint : script.Printable) :
    ∃ again, Script.parse script.source = .ok again ∧ again.unplaced = script.unplaced := by
  have hanswers := answers_source hparse hprint.steady fun _ : True => hprint
  obtain ⟨again, c, hrun, -, -, hagain⟩ := hanswers.of_strict (atFront_lexemes script.source)
  refine ⟨again, ?_, hagain⟩
  unfold Script.parse Script.ofLexemes
  rw [hrun]
  rfl

/-- A script with a declaration on one line, calls as arguments, an escape and negative numbers. -/
def counting : String :=
  "function add(number $a, number b) \x7b $sum = $a + -2 * \"x\\\"y\"; print $sum 1.50 \x7d\n" ++
    "!add (!add 1 2) (!true) # ends here\nprint -0.5, 1e3 (1+2)"

def countingScript : Script :=
  [.declaration ⟨1, 1⟩ "add" [⟨"number", "a"⟩, ⟨"number", "b"⟩]
    [.expression ⟨1, 37⟩
      (.assign "sum" (.binary (.variable "a") .add
        (.binary (.literal (.number (-2))) .multiply (.literal (.text "x\"y"))))),
     .command ⟨1, 62⟩ "print" [.variable "sum", .literal (.number 1.5)]],
   .expression ⟨2, 1⟩ (.call "add"
    [.call "add" [.literal (.number 1), .literal (.number 2)], .negate (.literal (.boolean true))]),
   .command ⟨3, 1⟩ "print"
    [.literal (.number (-0.5)), .literal (.number 1000),
     .binary (.literal (.number 1)) .add (.literal (.number 2))]]

theorem reparse_source_counting :
    Script.parse counting = .ok countingScript ∧ countingScript.Printable ∧
      ∃ again, Script.parse countingScript.source = .ok again ∧
        again.unplaced = countingScript.unplaced := by
  have hparse : Script.parse counting = .ok countingScript := by decide +kernel
  have hprint : countingScript.Printable := by decide +kernel
  exact ⟨hparse, hprint, reparse_source hparse hprint⟩

/-- Whatever the text of a steady script is parsed to is the same script, apart from the places. The
text may have no script at all: an expression with brackets is no statement, for one. -/
theorem unplaced_eq_of_reparse {source : String} {script again : Script}
    (hparse : Script.parse source = .ok script) (hsteady : script.Steady)
    (hagain : Script.parse script.source = .ok again) : again.unplaced = script.unplaced := by
  have hanswers := answers_source hparse hsteady fun h : False => h.elim
  unfold Script.parse Script.ofLexemes at hagain
  rcases hrun : Parser.script (Cursor.ofLexemes (lexemes script.source)) with fault | ⟨ss, c⟩
  · rw [hrun] at hagain
    exact nomatch hagain
  · rw [hrun] at hagain
    obtain rfl : ss = again := Except.ok.inj hagain
    exact hanswers.of_ok (atFront_lexemes script.source) hrun

/-- A script with minus signs before a first argument, an operand and an assigned number. -/
def shifting : String :=
  "function shift(number $x) \x7b echo -1.5, $x - -2 !(!$x) \x7d\n$y = -3; !shift $y, (!shift -0 2)"

def shiftingScript : Script :=
  [.declaration ⟨1, 1⟩ "shift" [⟨"number", "x"⟩]
    [.command ⟨1, 29⟩ "echo"
      [.literal (.number (-1.5)), .binary (.variable "x") .subtract (.literal (.number (-2))),
       .negate (.negate (.variable "x"))]],
   .expression ⟨2, 1⟩ (.assign "y" (.literal (.number (-3)))),
   .expression ⟨2, 10⟩ (.call "shift"
    [.variable "y", .call "shift" [.literal (.number (-0)), .literal (.number 2)]])]

theorem unplaced_eq_of_reparse_shifting :
    Script.parse shifting = .ok shiftingScript ∧ shiftingScript.Steady ∧
      ∃ again, Script.parse shiftingScript.source = .ok again ∧
        again.unplaced = shiftingScript.unplaced := by
  have hparse : Script.parse shifting = .ok shiftingScript := by decide +kernel
  have hsteady : shiftingScript.Steady := by decide +kernel
  have hreads : (Script.parse shiftingScript.source).toOption.isSome := by decide +kernel
  rcases hagain : Script.parse shiftingScript.source with fault | again
  · rw [hagain] at hreads
    exact nomatch hreads
  · exact ⟨hparse, hsteady, again, rfl, unplaced_eq_of_reparse hparse hsteady hagain⟩

/-! The text of a script that is not steady may be that of another script: here one argument is
subtracted from the other, and there the negation of a number is a call. -/

example : (Script.parse "echo 1, -2").toOption.map (fun script =>
    (script.source, (Script.parse script.source).toOption.map fun again => again.source)) =
      some ("echo 1 -2", some "echo (1 - 2)") := by
  decide +kernel

example : (Script.parse "echo !1e999").toOption.any (fun script =>
    script matches [.command _ "echo" [.negate _]] &&
      (Script.parse script.source).toOption.any fun again =>
        again matches [.command _ "echo" [.call "inf" []]]) = true := by
  decide +kernel

end Script

end CommandScript
