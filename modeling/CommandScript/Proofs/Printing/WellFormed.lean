import CommandScript.Proofs.Lexeme.Spelling
import CommandScript.Proofs.Parser.Statements

/-!
Well-formed scripts. The names in a parsed script are words that stand for such names: they consist
of word characters, commands and calls are not named by keywords, no literal is a statement, and
bodies declare nothing. The main statement is that every script that a source parses to is well
formed.
-/

namespace CommandScript
set_option autoImplicit false

open CommandScript.Parser (Repeated)

/-! ## Trees -/

inductive Expr.WellFormed : Expr → Prop where
  | literal {value : Literal} : WellFormed (.literal value)
  | variable {name : String} : IsRun name → WellFormed (.variable name)
  | assign {name : String} {value : Expr} :
      IsRun name → WellFormed value → WellFormed (.assign name value)
  | negate {e : Expr} : WellFormed e → WellFormed (.negate e)
  | binary {left right : Expr} {op : Operator} :
      WellFormed left → WellFormed right → WellFormed (.binary left op right)
  | call {name : String} {args : List Expr} :
      IsWord name → Parser.isName name → (∀ e ∈ args, WellFormed e) → WellFormed (.call name args)

structure Parameter.WellFormed (p : Parameter) : Prop where
  type : IsWord p.type
  all : ∀ c ∈ p.name.toList, isWordChar c
  dollar : p.name.toList.head? ≠ some '$'

inductive Statement.WellFormed : Statement → Prop where
  | command {place : Location} {name : String} {args : List Expr} :
      IsWord name → name.toList.head? ≠ some '$' → (∀ e ∈ args, e.WellFormed) →
        WellFormed (.command place name args)
  | expression {place : Location} {e : Expr} :
      e.WellFormed → (∀ v, e ≠ .literal v) → WellFormed (.expression place e)
  | declaration {place : Location} {name : String} {params : List Parameter}
      {body : List Statement} :
      IsWord name → (∀ p ∈ params, p.WellFormed) → (∀ s ∈ body, WellFormed s) →
        (∀ s ∈ body, s.isDeclaration = false) → WellFormed (.declaration place name params body)

/-! ## From yields -/

/-- The words among the lexemes are what words can be. -/
def Spelled (ls : List Lexeme) : Prop := ∀ l ∈ ls, l.kind = .word → IsWord l.content

section

variable {l : Lexeme} {ls ls' : List Lexeme}

theorem spelled_cons : Spelled (l :: ls) ↔ (l.kind = .word → IsWord l.content) ∧ Spelled ls :=
  List.forall_mem_cons

@[simp] theorem spelled_append : Spelled (ls ++ ls') ↔ Spelled ls ∧ Spelled ls' :=
  List.forall_mem_append

theorem spelled_significant (h : Spelled ls) : Spelled (significant ls) :=
  fun l hl => h l (List.mem_filter.mp hl).1

end

theorem Lexeme.IsWord.isWord {l : Lexeme} {w : String} (h : l.IsWord w)
    (hl : l.kind = .word → CommandScript.IsWord l.content) : CommandScript.IsWord w :=
  h.content ▸ hl h.kind

/-- A name behind a dollar sign is a run, and it may look like a keyword. -/
theorem isRun_of_dollar {name : String} (h : IsWord ("$" ++ name)) (hne : name ≠ "") :
    IsRun name := by
  refine ⟨hne, fun c hc => h.all c ?_⟩
  rw [String.toList_append]
  exact List.mem_append_right _ hc

mutual

theorem Expr.wellFormed_of_yields (e : Expr) {ls : List Lexeme} (h : e.Yields ls)
    (hls : Spelled ls) : e.WellFormed := by
  cases e with
  | literal value => exact .literal
  | «variable» name =>
    cases h with
    | «variable» hw hne =>
      exact .variable (isRun_of_dollar (hw.isWord (spelled_cons.mp hls).1) hne)
  | assign name value =>
    cases h with
    | assign hw hne _ hvalue =>
      rw [spelled_cons, spelled_cons] at hls
      have hvalue := Expr.wellFormed_of_yields value hvalue hls.2.2
      exact .assign (isRun_of_dollar (hw.isWord hls.1) hne) hvalue
  | negate e =>
    cases h with
    | negate _ he =>
      exact .negate (Expr.wellFormed_of_yields e he (spelled_cons.mp hls).2)
  | binary left op right =>
    cases h with
    | binary hleft _ hright =>
      rw [spelled_append, spelled_cons] at hls
      exact .binary (Expr.wellFormed_of_yields left hleft hls.1)
        (Expr.wellFormed_of_yields right hright hls.2.2)
  | call name args =>
    cases h with
    | call _ hw hname hargs =>
      rw [spelled_cons, spelled_cons] at hls
      exact .call (hw.isWord hls.2.1) hname (Expr.wellFormed_of_repeated args hargs hls.2.2)

theorem Expr.wellFormed_of_repeated (es : List Expr) {ls : List Lexeme}
    (h : Repeated Expr.Yields es ls) (hls : Spelled ls) : ∀ e ∈ es, e.WellFormed := by
  cases es with
  | nil => exact nofun
  | cons e es =>
    cases h with
    | cons he hes =>
      rw [spelled_append] at hls
      rw [List.forall_mem_cons]
      exact ⟨Expr.wellFormed_of_yields e he hls.1, Expr.wellFormed_of_repeated es hes hls.2⟩

end

theorem Parameter.wellFormed_of_yields {p : Parameter} {ls : List Lexeme} (h : p.Yields ls)
    (hls : Spelled ls) : p.WellFormed := by
  cases h with
  | mk htype hname =>
    rename_i type name
    rw [spelled_cons, spelled_cons] at hls
    have hall := (hls.2.1 hname).all
    refine ⟨hls.1 htype, ?_, ?_⟩
    · rw [String.toList_ofList]
      exact fun c hc => hall c ((List.dropWhile_sublist _).mem hc)
    · rw [String.toList_ofList]
      intro hdollar
      have hnot := List.head?_dropWhile_not (· == '$') name.content.toList
      rw [hdollar] at hnot
      exact nomatch hnot

theorem Parameter.wellFormed_of_repeated {ps : List Parameter} {ls : List Lexeme}
    (h : Repeated Parameter.Yields ps ls) (hls : Spelled ls) : ∀ p ∈ ps, p.WellFormed := by
  induction h with
  | nil => exact nofun
  | cons hp _ ih =>
    rw [spelled_append] at hls
    rw [List.forall_mem_cons]
    exact ⟨Parameter.wellFormed_of_yields hp hls.1, ih hls.2⟩

mutual

theorem Statement.wellFormed_of_yields (s : Statement) {ls : List Lexeme} (h : s.Yields ls)
    (hactive : s.Active) (hls : Spelled ls) : s.WellFormed := by
  cases s with
  | command place name args =>
    cases h with
    | command hw hdollar hargs =>
      rw [spelled_cons] at hls
      exact .command (hw.isWord hls.1) hdollar (Expr.wellFormed_of_repeated args hargs hls.2)
  | expression place e =>
    cases h with
    | expression he =>
    cases hactive with
    | expression hfirst =>
      refine .expression (Expr.wellFormed_of_yields e he hls) fun v hv => hfirst v ?_
      rw [hv]
      rfl
  | declaration place name params body =>
    cases h with
    | declaration _ _ hw hparams hbody hdeclares =>
    cases hactive with
    | declaration hactive =>
      rw [spelled_cons, spelled_cons, spelled_append] at hls
      exact .declaration (hw.isWord hls.2.1) (Parameter.wellFormed_of_repeated hparams hls.2.2.1)
        (Statement.wellFormed_of_repeated body hbody hactive hls.2.2.2) hdeclares

theorem Statement.wellFormed_of_repeated (ss : List Statement) {ls : List Lexeme}
    (h : Repeated Statement.Yields ss ls) (hactive : ∀ s ∈ ss, s.Active) (hls : Spelled ls) :
    ∀ s ∈ ss, s.WellFormed := by
  cases ss with
  | nil => exact nofun
  | cons s ss =>
    cases h with
    | cons hs hss =>
      rw [spelled_append] at hls
      rw [List.forall_mem_cons] at hactive ⊢
      exact ⟨Statement.wellFormed_of_yields s hs hactive.1 hls.1,
        Statement.wellFormed_of_repeated ss hss hactive.2 hls.2⟩

end

/-! ## Parsed scripts -/

theorem Script.parse_wellFormed {source : String} {script : Script}
    (hparse : Script.parse source = .ok script) : ∀ s ∈ script, s.WellFormed := by
  obtain ⟨ls, stop, hlexemes, htokens, hkinds⟩ := lexemes_eq source
  unfold Script.parse at hparse
  rw [hlexemes] at hparse
  have hspelled : Spelled ls := by
    intro l hl hkind
    refine tokens_isWord source.toList l.token ?_ hkind
    rw [← htokens]
    exact List.mem_map_of_mem hl
  exact Statement.wellFormed_of_repeated script (Script.yields_of_ofLexemes hkinds hparse)
    (Script.active_of_ofLexemes hkinds hparse) (spelled_significant hspelled)

end CommandScript
