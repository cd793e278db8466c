import CommandScript.Parser.Statement
import CommandScript.Proofs.Parser.Takes
import CommandScript.Proofs.Statement.Parts

/-!
Yields. The yield of a tree is the row of lexemes that it is read from, without those that only tell
where its parts begin and end: blanks, comments, commas, semicolons and brackets. A number may be
written in many ways, so one tree has many yields, and `Yields` is a relation.
-/

namespace CommandScript
set_option autoImplicit false

/-! ## Significant lexemes -/

/-- What neither separates lexemes nor encloses them. -/
def LexemeKind.isSignificant : LexemeKind → Bool
  | whitespace | newLine | comment | comma | semicolon => false
  | leftParen | rightParen | leftBrace | rightBrace | endOfFile => false
  | _ => true

def significant (ls : List Lexeme) : List Lexeme := ls.filter fun l => l.kind.isSignificant

section

variable {ls ls' : List Lexeme} {l : Lexeme}

@[simp] theorem significant_append : significant (ls ++ ls') = significant ls ++ significant ls' :=
  List.filter_append ..

theorem significant_cons (h : l.kind.isSignificant) :
    significant (l :: ls) = l :: significant ls :=
  List.filter_cons_of_pos h

theorem significant_cons_of_not (h : ¬ l.kind.isSignificant) :
    significant (l :: ls) = significant ls :=
  List.filter_cons_of_neg h

theorem significant_of_kind {kind : LexemeKind} (hkind : l.kind = kind)
    (h : kind.isSignificant = true) : significant [l] = [l] := by
  subst hkind
  exact significant_cons h

theorem significant_of_kind' {kind : LexemeKind} (hkind : l.kind = kind)
    (h : kind.isSignificant = false) : significant [l] = [] := by
  subst hkind
  exact significant_cons_of_not (Bool.not_eq_true _ ▸ h)

theorem significant_eq_nil (h : ∀ l ∈ ls, l.kind.isSignificant = false) : significant ls = [] := by
  unfold significant
  rw [List.filter_eq_nil_iff]
  intro l hl
  rw [h l hl]
  exact Bool.false_ne_true

end

/-! ## Expressions -/

open CommandScript.Parser (Repeated)

/-- The lexeme is the word `text`. -/
structure Lexeme.IsWord (l : Lexeme) (text : String) : Prop where
  kind : l.kind = .word
  content : l.content = text

/-- The expression is read from the significant lexemes of the list. -/
inductive Expr.Yields : Expr → List Lexeme → Prop where
  | number {x : Float} {w : Lexeme} :
      w.kind = .word → Number.ofWord? w.content = some x → Yields (.literal (.number x)) [w]
  | negativeNumber {x : Float} {sign w : Lexeme} :
      sign.kind = .minus → w.kind = .word → Number.ofWord? w.content = some (-x) →
        Yields (.literal (.number x)) [sign, w]
  | text {s : String} {l : Lexeme} :
      l.kind = .quotedString → Text.unquote? l.content = some s → Yields (.literal (.text s)) [l]
  | boolean {b : Bool} {l : Lexeme} :
      l.kind = .keyword → l.content = (if b then "true" else "false") →
        Yields (.literal (.boolean b)) [l]
  | variable {name : String} {w : Lexeme} :
      w.IsWord ("$" ++ name) → name ≠ "" → Yields (.variable name) [w]
  | assign {name : String} {value : Expr} {w sign : Lexeme} {ls : List Lexeme} :
      w.IsWord ("$" ++ name) → name ≠ "" → sign.kind = .equals → Yields value ls →
        Yields (.assign name value) (w :: sign :: ls)
  | negate {e : Expr} {mark : Lexeme} {ls : List Lexeme} :
      mark.kind = .exclamation → Yields e ls → Yields (.negate e) (mark :: ls)
  | binary {left right : Expr} {op : Operator} {sign : Lexeme} {ls ls' : List Lexeme} :
      Yields left ls → Operator.ofKind? sign.kind = some op → Yields right ls' →
        Yields (.binary left op right) (ls ++ sign :: ls')
  | call {name : String} {args : List Expr} {mark w : Lexeme} {ls : List Lexeme} :
      mark.kind = .exclamation → w.IsWord name → Parser.isName name → Repeated Yields args ls →
        Yields (.call name args) (mark :: w :: ls)

theorem Expr.Yields.ne_nil {e : Expr} {ls : List Lexeme} (h : e.Yields ls) : ls ≠ [] := by
  cases h with
  | binary => exact List.append_ne_nil_of_right_ne_nil _ (List.cons_ne_nil _ _)
  | _ => exact List.cons_ne_nil _ _

/-! ## Statements -/

/-- A parameter is read from a type and from a name, before which there may be dollar signs. -/
inductive Parameter.Yields : Parameter → List Lexeme → Prop where
  | mk {type name : Lexeme} : type.kind = .word → name.kind = .word →
      Yields ⟨type.content, String.ofList (name.content.toList.dropWhile (· == '$'))⟩ [type, name]

/-- The statement is read from the lexemes, of which the first one stands at its place. The body of
a declaration declares nothing. -/
inductive Statement.Yields : Statement → List Lexeme → Prop where
  | command {name : String} {args : List Expr} {w : Lexeme} {ls : List Lexeme} :
      w.IsWord name → name.toList.head? ≠ some '$' → Repeated Expr.Yields args ls →
        Yields (.command w.start name args) (w :: ls)
  | expression {e : Expr} {l : Lexeme} {ls : List Lexeme} :
      e.Yields (l :: ls) → Yields (.expression l.start e) (l :: ls)
  | declaration {name : String} {params : List Parameter} {body : List Statement}
      {k w : Lexeme} {ls ls' : List Lexeme} :
      k.kind = .keyword → k.content = "function" → w.IsWord name →
        Repeated Parameter.Yields params ls → Repeated Yields body ls' →
          (∀ s ∈ body, s.isDeclaration = false) →
            Yields (.declaration k.start name params body) (k :: w :: (ls ++ ls'))

/-- The statements of the script are read one after the other. -/
def Script.Yields (script : Script) (ls : List Lexeme) : Prop := Repeated Statement.Yields script ls

end CommandScript
