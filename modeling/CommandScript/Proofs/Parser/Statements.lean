import CommandScript.Proofs.Lexeme.Placed
import CommandScript.Proofs.Parser.Expressions
import CommandScript.Statement.Equality

/-!
What the parsers of statements and scripts take. The main statement is that the significant lexemes
of a source, in their order, are the yields of its statements one after the other: no lexeme is
lost, taken twice or moved.
-/

namespace CommandScript
set_option autoImplicit false

open CommandScript.Parser (Repeated)

theorem Statement.Yields.ne_nil {s : Statement} {ls : List Lexeme} (h : s.Yields ls) : ls ≠ [] := by
  cases h <;> exact List.cons_ne_nil _ _

/-- The expression with which the text of an expression begins: where operators make a chain, the first
one in it. -/
def Expr.first : Expr → Expr
  | .binary left _ _ => left.first
  | e => e

theorem Expr.first_ne_binary (e left right : Expr) (op : Operator) :
    e.first ≠ .binary left op right := by
  cases e with
  | binary inner _ _ => exact inner.first_ne_binary left right op
  | literal | «variable» | assign | negate | call => exact nofun

/-- An expression and the first one in it are read from the same lexeme on. -/
theorem Expr.yields_first (e : Expr) {l : Lexeme} {ls : List Lexeme} (h : e.Yields (l :: ls)) :
    ∃ ls', e.first.Yields (l :: ls') := by
  cases e with
  | binary left op right =>
    generalize hls : l :: ls = xs at h
    cases h with
    | @binary _ _ _ sign ts us hleft _ _ =>
      obtain _ | ⟨t, ts⟩ := ts
      · exact absurd rfl hleft.ne_nil
      · obtain rfl := (List.cons.inj hls).1
        exact left.yields_first hleft
  | literal | «variable» | assign | negate | call => exact ⟨ls, h⟩

/-- No statement begins with a literal, also none in a body. -/
inductive Statement.Active : Statement → Prop where
  | command {place : Location} {name : String} {args : List Expr} : Active (.command place name args)
  | expression {place : Location} {e : Expr} :
      (∀ v, e.first ≠ .literal v) → Active (.expression place e)
  | declaration {place : Location} {name : String} {params : List Parameter}
      {body : List Statement} :
      (∀ s ∈ body, Active s) → Active (.declaration place name params body)

namespace Parser

variable {l : Lexeme}

/-! ## Commands and expressions -/

theorem reads_terminator : Reads terminator fun _ ls => ls = [] := by
  unfold terminator
  refine reads_skip_bind (reads_peek_bind fun l => ?_)
  have htaken {kind : LexemeKind} (hkind : l.kind = kind) (hend : kind ≠ .endOfFile)
      (hsilent : kind.isSignificant = false) :
      ReadsAt (advance >>= fun _ => pure ()) l fun _ ls => ls = [] := by
    refine readsAt_advance_bind (hkind ▸ hend) (reads_pure ?_)
    rw [significant_of_kind' hkind hsilent]
    rfl
  split
  · rename_i hkind
    exact htaken hkind (by decide) rfl
  · rename_i hkind
    exact htaken hkind (by decide) rfl
  · rename_i hkind
    exact htaken hkind (by decide) rfl
  · exact takes_pure rfl
  · exact takes_pure rfl
  · exact reads_fail l

/-- The statement does something and declares nothing. -/
structure Plain (s : Statement) : Prop where
  declares : s.isDeclaration = false
  active : s.Active

theorem readsAt_command (hword : l.kind = .word) (hdollar : l.content.toList.head? ≠ some '$') :
    ReadsAt (command l.start) l fun s ls => s.Yields ls ∧ Plain s := by
  unfold command
  refine readsAt_advance_bind (by rw [hword]; decide) ?_
  refine (reads_arguments reads_operand).bind fun args ls hargs => ?_
  refine reads_terminator.bind fun _ ls' hls' => reads_pure ?_
  rw [significant_of_kind hword rfl, hls', List.append_nil, List.append_nil]
  exact ⟨.command ⟨hword, rfl⟩ hdollar hargs, ⟨rfl, .command⟩⟩

/-- A literal begins neither with the mark of a call nor with a dollar sign. -/
theorem first_ne_literal_of_yields {e : Expr} {ls : List Lexeme} (h : e.Yields (l :: ls))
    (hl : l.kind = .exclamation ∨ l.kind = .word ∧ l.content.toList.head? = some '$') (v : Literal) :
    e.first ≠ .literal v := by
  intro hv
  obtain ⟨ls', hfirst⟩ := e.yields_first h
  rw [hv] at hfirst
  cases hfirst with
  | number hword hx =>
    rcases hl with hkind | ⟨-, hdollar⟩
    · exact nomatch hword.symm.trans hkind
    · unfold Number.ofWord? at hx
      cases hcontent : l.content.toList with
      | nil =>
        rw [hcontent] at hdollar
        exact nomatch hdollar
      | cons c cs =>
        rw [hcontent] at hx hdollar
        obtain rfl : c = '$' := Option.some.inj hdollar
        exact nomatch hx
  | negativeNumber hkind => rcases hl with h | ⟨h, -⟩ <;> exact nomatch hkind.symm.trans h
  | text hkind => rcases hl with h | ⟨h, -⟩ <;> exact nomatch hkind.symm.trans h
  | boolean hkind => rcases hl with h | ⟨h, -⟩ <;> exact nomatch hkind.symm.trans h

theorem readsAt_expressionStatement
    (hl : l.kind = .exclamation ∨ l.kind = .word ∧ l.content.toList.head? = some '$') :
    ReadsAt (expressionStatement l.start) l fun s ls => s.Yields ls ∧ Plain s := by
  have hsignificant : l.kind.isSignificant := by
    rcases hl with hkind | ⟨hkind, -⟩ <;> rw [hkind] <;> rfl
  have hexpression : ReadsAt (expression operand) l
      fun e ls => ∃ ls', ls = l :: ls' ∧ e.Yields (l :: ls') := by
    refine (reads_expression reads_operand l).head.weaken ?_
    rintro e (_ | ⟨t, ts⟩) l' ⟨he, hhead⟩
    · exact absurd rfl he.ne_nil
    · obtain rfl := hhead t rfl
      rw [significant_cons hsignificant] at he
      exact ⟨_, significant_cons hsignificant, he⟩
  unfold expressionStatement
  refine hexpression.bind ?_
  rintro e ls ⟨ls', rfl, he⟩
  refine reads_terminator.bind fun _ ls hls => reads_pure ?_
  rw [hls, List.append_nil, List.append_nil]
  exact ⟨.expression he, ⟨rfl, .expression (first_ne_literal_of_yields he hl)⟩⟩

/-! ## Blocks -/

/-- What the parser of declarations reads is allowed, and so is every plain statement. -/
structure Admits (declaration : Lexeme → Parser Statement) (allowed : Statement → Prop) : Prop where
  plain : ∀ s, Plain s → allowed s
  declaration : ∀ k : Lexeme, k.kind = .keyword → k.content = "function" →
    Reads (declaration k) fun s ls => s.Yields (k :: ls) ∧ allowed s

section

variable {allowed : Statement → Prop} {declaration : Lexeme → Parser Statement}
  (hadmits : Admits declaration allowed)

include hadmits

theorem reads_statement : Reads (statement declaration) fun s ls => s.Yields ls ∧ allowed s := by
  unfold statement
  refine reads_peek_bind fun l => ?_
  have hplain {p : Parser Statement} (hp : ReadsAt p l fun s ls => s.Yields ls ∧ Plain s) :
      ReadsAt p l fun s ls => s.Yields ls ∧ allowed s :=
    hp.weaken fun s ts l' hs => ⟨hs.1, hadmits.plain s hs.2⟩
  split
  · rename_i hkind
    split
    · rename_i hcontent
      refine readsAt_advance_bind (by rw [hkind]; decide) ?_
      rw [significant_of_kind hkind rfl]
      exact hadmits.declaration l hkind hcontent
    · exact reads_fail l
  · rename_i hkind
    exact hplain (readsAt_expressionStatement (.inl hkind))
  · rename_i hkind
    split
    · rename_i hdollar
      exact hplain (readsAt_expressionStatement (.inr ⟨hkind, hdollar⟩))
    · rename_i hdollar
      exact hplain (readsAt_command hkind hdollar)
  · exact reads_fail l

/-- At the end of a body or of a script only separators were taken, and a script ends with its
source. -/
theorem takes_statement? (inBody : Bool) :
    Takes (statement? inBody declaration) l fun o ts l' =>
      Optionally (fun s ls => (s.Yields ls ∧ allowed s) ∧ ls ≠ []) o (significant ts) ∧
        (o = none → inBody = false → l'.kind = .endOfFile) := by
  have hstatement : Reads (some <$> statement declaration)
      fun o ls => ∃ s, o = some s ∧ s.Yields ls ∧ allowed s :=
    reads_some ((reads_statement hadmits).weaken fun s ls hs => ⟨s, rfl, hs⟩)
  unfold statement?
  refine takes_bind (takes_skipWhile _) fun _ ts l' hts => takes_peek_bind ?_
  have hsilent : significant ts = [] := by
    refine significant_eq_nil fun x hx => ?_
    have hseparator := hts x hx
    revert hseparator
    cases x.kind <;> decide
  split
  · exact takes_fail _ _
  · rename_i hkind
    exact takes_pure ⟨by rw [List.append_nil, hsilent]; rfl, fun _ _ => hkind⟩
  · exact takes_pure ⟨by rw [List.append_nil, hsilent]; rfl, fun _ hbody => nomatch hbody⟩
  · refine (hstatement l').weaken ?_
    rintro o us l'' ⟨s, rfl, hs⟩
    rw [significant_append, hsilent]
    exact ⟨⟨hs, hs.1.ne_nil⟩, fun hnone => nomatch hnone⟩

theorem progress_statement? (inBody : Bool) (l : Lexeme) :
    Takes (statement? inBody declaration) l fun o ts _ => o = none ∨ ts ≠ [] := by
  have hreads : Reads (statement? inBody declaration)
      (Optionally fun s ls => (s.Yields ls ∧ allowed s) ∧ ls ≠ []) :=
    fun _ => (takes_statement? hadmits inBody).weaken fun _ _ _ => And.left
  exact hreads.progress l

end

theorem reads_nestedFunction : Admits (fail .nestedFunction) Plain where
  plain := fun _ => id
  declaration := fun _ _ _ => reads_fail

theorem reads_body :
    Reads body fun ss ls => Repeated Statement.Yields ss ls ∧ ∀ s ∈ ss, Plain s := by
  have hbody : Reads body (Repeated fun s ls => s.Yields ls ∧ Plain s) := by
    unfold body
    refine fun l => (takes_many_significant (fun _ => True) fun l' => ?_).weaken
      fun _ _ _ => And.left
    refine (takes_statement? reads_nestedFunction true).weaken fun o ts l' h => ?_
    exact ⟨h.1, fun _ => trivial⟩
  refine hbody.weaken fun ss ls hss => ⟨hss.imp fun _ _ => And.left, fun s hs => ?_⟩
  obtain ⟨us, hus⟩ := hss.exists_of_mem hs
  exact hus.2

/-! ## Declarations -/

theorem reads_identifier (mode : Skip) :
    Reads (identifier mode) fun name ls => ∃ w : Lexeme, w.IsWord name ∧ ls = [w] := by
  unfold identifier
  refine reads_peekPast_bind fun ahead => ?_
  have hword : ∀ x : Lexeme, (x.kind == .word) = true → x.kind ≠ .endOfFile := by
    intro x hx
    rw [beq_iff_eq.mp hx]
    decide
  refine (reads_tryTakeIf mode hword).bind ?_
  rintro (_ | w) ls hw
  · exact reads_fail
  · obtain ⟨hkind, rfl⟩ := hw
    rw [beq_iff_eq] at hkind
    refine reads_pure ⟨w, ⟨hkind, rfl⟩, ?_⟩
    rw [significant_of_kind hkind rfl]
    rfl

theorem reads_parameter : Reads parameter fun p ls => p.Yields ls := by
  unfold parameter
  refine (reads_identifier .layout).bind ?_
  rintro _ ls ⟨type, ⟨htype, rfl⟩, rfl⟩
  refine (reads_identifier .layout).bind ?_
  rintro _ ls ⟨name, ⟨hname, rfl⟩, rfl⟩
  exact reads_pure (.mk htype hname)

theorem reads_furtherParameter? :
    Reads furtherParameter? (Optionally fun p ls => p.Yields ls ∧ ls ≠ []) := by
  unfold furtherParameter?
  refine (reads_tryTake .layout (by decide)).bind ?_
  rintro (_ | comma) ls hcomma
  · obtain rfl : ls = [] := hcomma
    exact reads_pure rfl
  · obtain ⟨hkind, rfl⟩ := hcomma
    rw [significant_of_kind' hkind rfl]
    refine reads_some (reads_parameter.weaken fun p ls hp => ⟨hp, ?_⟩)
    cases hp
    exact List.cons_ne_nil _ _

theorem reads_parameters : Reads parameters (Repeated Parameter.Yields) := by
  unfold parameters
  refine (reads_tryTake .layout (by decide)).bind ?_
  rintro (_ | close) ls hclose
  · obtain rfl : ls = [] := hclose
    refine reads_parameter.bind fun p ls hp => ?_
    refine (reads_many reads_furtherParameter?).bind fun ps ls' hps => ?_
    refine (reads_take .layout (by decide)).bind ?_
    rintro close ls'' ⟨hkind, rfl⟩
    refine reads_pure ?_
    rw [significant_of_kind' hkind rfl]
    simpa using Repeated.cons hp hps
  · obtain ⟨hkind, rfl⟩ := hclose
    refine reads_pure ?_
    rw [significant_of_kind' hkind rfl]
    exact .nil

theorem reads_declaration : Admits declaration Statement.Active := by
  refine ⟨fun _ hs => hs.active, fun k hkind hcontent => ?_⟩
  unfold declaration
  refine (reads_identifier .whitespace).bind ?_
  rintro name ls ⟨w, hw, rfl⟩
  refine (reads_take .whitespace (by decide)).bind ?_
  rintro x ls ⟨hx, rfl⟩
  rw [significant_of_kind' hx rfl]
  refine reads_parameters.bind fun params ls hparams => ?_
  refine (reads_take .layout (by decide)).bind ?_
  rintro x ls' ⟨hx, rfl⟩
  rw [significant_of_kind' hx rfl]
  refine reads_body.bind fun statements ls' ⟨hstatements, hplain⟩ => ?_
  refine (reads_take .nothing (by decide)).bind ?_
  rintro x ls'' ⟨hx, rfl⟩
  rw [significant_of_kind' hx rfl]
  refine reads_pure ⟨?_, .declaration fun s hs => (hplain s hs).active⟩
  have hdeclares : ∀ s ∈ statements, s.isDeclaration = false := fun s hs => (hplain s hs).declares
  simpa using .declaration hkind hcontent hw hparams hstatements hdeclares

/-! ## Scripts -/

theorem takes_script :
    Takes script l fun ss ts l' =>
      (Repeated Statement.Yields ss (significant ts) ∧ ∀ s ∈ ss, s.Active) ∧ l'.kind = .endOfFile := by
  have hscript : Takes script l fun ss ts l' =>
      Repeated (fun s ls => s.Yields ls ∧ s.Active) ss (significant ts) ∧ l'.kind = .endOfFile := by
    unfold script
    refine takes_many_significant _ fun l' => ?_
    refine (takes_statement? reads_declaration false).weaken fun o ts l'' h => ?_
    exact ⟨h.1, fun hnone => h.2 hnone rfl⟩
  refine hscript.weaken fun ss ts l' h => ⟨⟨h.1.imp fun _ _ => And.left, fun s hs => ?_⟩, h.2⟩
  obtain ⟨us, hus⟩ := h.1.exists_of_mem hs
  exact hus.2

end Parser

namespace Cursor

variable {ls : List Lexeme} {stop : Location}

theorem ahead_ofLexemes (ls : List Lexeme) (stop : Location) :
    (ofLexemes (ls ++ [Lexeme.endOfFile stop])).ahead = ls ++ [Lexeme.endOfFile stop] := by
  cases ls <;> rfl

theorem closed_ofLexemes (ls : List Lexeme) (stop : Location) :
    (ofLexemes (ls ++ [Lexeme.endOfFile stop])).Closed := by
  refine ⟨Lexeme.endOfFile stop, ?_, rfl⟩
  rw [ahead_ofLexemes, List.getLast?_append]
  rfl

end Cursor

section

variable {ls : List Lexeme} {stop : Location} {script : Script}
  (hkinds : ∀ l ∈ ls, l.kind ≠ .endOfFile)
  (hparse : Script.ofLexemes (ls ++ [Lexeme.endOfFile stop]) = .ok script)

include hkinds hparse

theorem Script.reads_of_ofLexemes : script.Yields (significant ls) ∧ ∀ s ∈ script, s.Active := by
  unfold Script.ofLexemes at hparse
  rcases hrun : Parser.script (Cursor.ofLexemes (ls ++ [Lexeme.endOfFile stop])) with e | ⟨ss, c⟩
  · rw [hrun] at hparse
    exact nomatch hparse
  · rw [hrun] at hparse
    obtain rfl : ss = script := Except.ok.inj hparse
    obtain ⟨ts, htook, hreads, hend⟩ :=
      Parser.takes_script (Cursor.closed_ofLexemes ls stop) rfl hrun
    have hahead := htook.ahead
    rw [Cursor.ahead_ofLexemes, Cursor.ahead_eq] at hahead
    obtain ⟨rfl, -⟩ := eq_of_append_endOfFile hkinds hend hahead
    exact hreads

/-- The script that lexemes write yields those of them that are significant. -/
theorem Script.yields_of_ofLexemes : script.Yields (significant ls) :=
  (Script.reads_of_ofLexemes hkinds hparse).1

/-- No statement of the script that lexemes write begins with a literal. -/
theorem Script.active_of_ofLexemes : ∀ s ∈ script, s.Active :=
  (Script.reads_of_ofLexemes hkinds hparse).2

end

/-- The significant lexemes of a source are, in their order, the yields of its statements. -/
theorem Script.parse_yields (source : String) (script : Script)
    (hparse : Script.parse source = .ok script) :
    script.Yields (significant (lexemes source)) := by
  obtain ⟨ls, stop, hlexemes, -, hkinds⟩ := lexemes_eq source
  unfold Script.parse at hparse
  rw [hlexemes] at hparse ⊢
  rw [significant_append, significant_of_kind' (rfl : (Lexeme.endOfFile stop).kind = .endOfFile) rfl,
    List.append_nil]
  exact Script.yields_of_ofLexemes hkinds hparse

/-- A script with a declaration, a comma, a minus sign before a number, brackets and a comment. -/
def greeting : String :=
  "function greet(string $who) \x7b\n  print \"hi \" + $who * 2, -1\n\x7d\n!greet (\"Ada\") # ends here"

def greetingScript : Script :=
  [.declaration ⟨1, 1⟩ "greet" [⟨"string", "who"⟩]
    [.command ⟨2, 3⟩ "print"
      [.binary (.literal (.text "hi ")) .add (.binary (.variable "who") .multiply (.literal (.number 2))),
       .literal (.number (-1))]],
   .expression ⟨4, 1⟩ (.call "greet" [.literal (.text "Ada")])]

theorem Script.parse_yields_greeting :
    Script.parse greeting = .ok greetingScript ∧
      greetingScript.Yields (significant (lexemes greeting)) := by
  have hparse : Script.parse greeting = .ok greetingScript := by decide +kernel
  exact ⟨hparse, Script.parse_yields greeting greetingScript hparse⟩

end CommandScript
