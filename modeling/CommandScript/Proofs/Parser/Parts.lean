import CommandScript.Proofs.Parser.Depth
import CommandScript.Proofs.Printing.WellFormed
import CommandScript.Proofs.Statement.Parts

/-!
The parts of parsed scripts. Every statement of a script, also one in the body of a function, and
every expression in it, also one inside another expression, has a name that can stand there; no
expression of a statement is deeper than the limit, and no body declares anything.
-/

namespace CommandScript
set_option autoImplicit false

/-! ## Names that can stand there -/

namespace Expr

/-- The name in the expression itself is one that can stand there: a variable has any run of word
characters, and a call has a word that is no number and does not begin as a variable does. -/
def NamedWell : Expr → Prop
  | .variable name | .assign name _ => IsRun name
  | .call name _ => IsWord name ∧ name.toList.head? ≠ some '$' ∧ Number.ofWord? name = none
  | .literal _ | .negate _ | .binary _ _ _ => True

end Expr

namespace Statement

def NamedWell : Statement → Prop
  | .command _ name _ => IsWord name ∧ name.toList.head? ≠ some '$'
  | .expression _ _ | .declaration _ _ _ _ => True

end Statement

/-! ## From wholes to parts -/

namespace Expr

theorem WellFormed.namedWell {e : Expr} (h : e.WellFormed) : e.NamedWell := by
  cases h with
  | literal => trivial
  | «variable» hname => exact hname
  | assign hname => exact hname
  | negate => trivial
  | binary => trivial
  | call hname hisName =>
    unfold Parser.isName at hisName
    rw [Bool.and_eq_true, decide_eq_true_eq, Option.isNone_iff_eq_none] at hisName
    exact ⟨hname, hisName⟩

mutual

theorem namedWell_of_mem_parts (e : Expr) (h : e.WellFormed) : ∀ part ∈ e.parts, part.NamedWell := by
  have hself := h.namedWell
  unfold parts
  cases h with
  | literal => exact List.forall_mem_singleton.mpr hself
  | «variable» => exact List.forall_mem_singleton.mpr hself
  | assign _ hvalue => exact List.forall_mem_cons.mpr ⟨hself, namedWell_of_mem_parts _ hvalue⟩
  | negate he => exact List.forall_mem_cons.mpr ⟨hself, namedWell_of_mem_parts _ he⟩
  | binary hleft hright =>
    have hsides := List.forall_mem_append.mpr
      ⟨namedWell_of_mem_parts _ hleft, namedWell_of_mem_parts _ hright⟩
    exact List.forall_mem_cons.mpr ⟨hself, hsides⟩
  | call _ _ hargs => exact List.forall_mem_cons.mpr ⟨hself, namedWell_of_mem_partsOfAll _ hargs⟩

theorem namedWell_of_mem_partsOfAll (es : List Expr) (h : ∀ e ∈ es, e.WellFormed) :
    ∀ part ∈ partsOfAll es, part.NamedWell := by
  unfold partsOfAll
  cases es with
  | nil => exact nofun
  | cons e es =>
    rw [List.forall_mem_cons] at h
    exact List.forall_mem_append.mpr
      ⟨namedWell_of_mem_parts e h.1, namedWell_of_mem_partsOfAll es h.2⟩

end

end Expr

namespace Statement

theorem WellFormed.namedWell {s : Statement} (h : s.WellFormed) : s.NamedWell := by
  cases h with
  | command hname hdollar => exact ⟨hname, hdollar⟩
  | expression => trivial
  | declaration => trivial

theorem WellFormed.body {s : Statement} (h : s.WellFormed) :
    ∀ t ∈ s.body, t.WellFormed ∧ t.isDeclaration = false := by
  cases h with
  | command => exact nofun
  | expression => exact nofun
  | declaration _ _ hbody hplain => exact fun t ht => ⟨hbody t ht, hplain t ht⟩

theorem WellFormed.expressions {s : Statement} (h : s.WellFormed) :
    ∀ e ∈ s.expressions, e.WellFormed := by
  cases h with
  | command _ _ hargs => exact hargs
  | expression he => exact List.forall_mem_singleton.mpr he
  | declaration => exact nofun

section

variable {s : Statement} {n : Nat} (h : s.exprDepth ≤ n)

include h

theorem exprDepth_le_of_mem_body : ∀ t ∈ s.body, t.exprDepth ≤ n := by
  cases s with
  | command => exact nofun
  | expression => exact nofun
  | declaration => exact exprDepthOfAll_le_iff.mp h

theorem depth_le_of_mem_expressions : ∀ e ∈ s.expressions, e.depth ≤ n := by
  cases s with
  | command => exact Expr.depthOfAll_le_iff.mp h
  | expression => exact List.forall_mem_singleton.mpr h
  | declaration => exact nofun

end

end Statement

/-! ## Parsed scripts -/

/-- In a parsed script the names are right wherever they stand, bodies declare nothing, and no
expression of a statement is deeper than the limit. -/
theorem Script.parse_parts {source : String} {script : Script}
    (h : Script.parse source = .ok script) :
    ∀ s ∈ script.statements, s.NamedWell ∧ (∀ t ∈ s.body, t.isDeclaration = false) ∧
      ∀ e ∈ s.expressions, e.depth ≤ 256 ∧ ∀ part ∈ e.parts, part.NamedWell := by
  have hwell := Script.parse_wellFormed h
  have hdepth := Statement.exprDepthOfAll_le_iff.mp (Script.exprDepth_le_of_ofLexemes h)
  have hall : ∀ s ∈ script.statements, s.WellFormed ∧ s.exprDepth ≤ Parser.maxDepth := by
    refine Statement.forall_mem_partsOfAll ?_ script fun s hs => ⟨hwell s hs, hdepth s hs⟩
    exact fun s hs t ht => ⟨(hs.1.body t ht).1, Statement.exprDepth_le_of_mem_body hs.2 t ht⟩
  intro s hs
  obtain ⟨hs, hsDepth⟩ := hall s hs
  refine ⟨hs.namedWell, fun t ht => (hs.body t ht).2, fun e he => ?_⟩
  exact ⟨Statement.depth_le_of_mem_expressions hsDepth e he,
    Expr.namedWell_of_mem_parts e (hs.expressions e he)⟩

/-- A call in an assignment in an argument, in the body of a function. -/
def nestedCalls : Script :=
  [.declaration ⟨1, 1⟩ "f" []
    [.command ⟨1, 16⟩ "print"
      [.assign "x" (.binary (.literal (.number 1)) .add (.call "g" [.variable "true"]))]],
   .expression ⟨2, 1⟩ (.call "f" [])]

theorem Script.parse_parts_nested :
    Script.parse "function f() \x7b print $x = (1 + !g $true) \x7d\n!f" = .ok nestedCalls ∧
      ∀ s ∈ nestedCalls.statements,
        s.NamedWell ∧ (∀ t ∈ s.body, t.isDeclaration = false) ∧
          ∀ e ∈ s.expressions, e.depth ≤ 256 ∧ ∀ part ∈ e.parts, part.NamedWell := by
  have h : Script.parse "function f() \x7b print $x = (1 + !g $true) \x7d\n!f" = .ok nestedCalls := by
    decide +kernel
  exact ⟨h, Script.parse_parts h⟩

end CommandScript
