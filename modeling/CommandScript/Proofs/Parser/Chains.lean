import CommandScript.Proofs.Parser.Hereditary
import CommandScript.Proofs.Walker.Chain

/-!
Chains of operators, as they are resolved and as sources have them. Resolving by index comes to the tree
of a row or tells that the chain is none, whatever links there are; and as a parser reads the links of
rows only, no source has that fault.
-/

namespace CommandScript
set_option autoImplicit false

namespace Parser

variable {α : Type}

/-- Where the parser faults, it is not for a chain of operators. -/
def SparesChains (p : Parser α) : Prop := ∀ c e, p c = .error e → e.fault ≠ .invalidOperatorChain

theorem sparesChains_attempt {p : Parser (Option α)} (hp : SparesChains p) :
    SparesChains (attempt p) := by
  intro c e h
  rcases hr : p c.mark with e' | ⟨_ | a, c'⟩
  · rw [attempt_apply_error hr] at h
    cases h
    exact hp _ _ hr
  · rw [attempt_apply_none hr] at h
    exact nomatch h
  · rw [attempt_apply_some hr] at h
    exact nomatch h

theorem sparesChains_manyWithin {step : Parser (Option α)} (hstep : SparesChains step)
    (rounds : List Lexeme) (found : List α) : SparesChains (manyWithin step found rounds) := by
  induction rounds generalizing found with
  | nil => exact fun c e h => nomatch h
  | cons x rounds ih =>
    intro c e h
    unfold manyWithin at h
    rcases hr : step c with e' | ⟨_ | a, c'⟩
    · rw [hr] at h
      cases h
      exact hstep _ _ hr
    · rw [hr] at h
      cases h
    · rw [hr] at h
      exact ih (a :: found) c' e h

theorem hereditary_sparesChains : Hereditary fun _ p => SparesChains p where
  move go _ _ _ h := nomatch h
  fail fault l hfault c e h := by
    cases h
    exact hfault
  bind := by
    intro α β p f answers hp hgives hf c e h
    rw [bind_apply] at h
    rcases hr : p c with e' | ⟨a, c'⟩
    · rw [hr] at h
      cases h
      exact hp _ _ hr
    · rw [hr] at h
      exact hf a (hgives c a c' hr) c' e h
  attempt := sparesChains_attempt
  many hstep c := sparesChains_manyWithin hstep _ [] c

end Parser

/-- A chain is resolved just if it is an operand with operators behind it, each before an operand, and
then to the tree of that row, cut where something is added or subtracted, with all folds from the left;
resolving it by index gives this tree, or the fault if there is none, and needs no link that is not
there. No source has the fault. -/
theorem Chain.resolve_standard (chain : List Link) :
    (∀ e, resolve chain = some e ↔ ∃ row : Row Expr, row.links = chain ∧ row.tree = e) ∧
      (∀ (start : Lexeme) (w : Walk), Walker.resolve start chain w =
        match resolve chain with
        | some e => some (.ok e, w)
        | none => some (.error (.fault (.ofLexeme .invalidOperatorChain start)), w)) ∧
      ∀ (source : String) (place : Location) (found : String),
        Script.parse source ≠ .error ⟨.invalidOperatorChain, place, found⟩ := by
  refine ⟨fun e => resolve_eq_some_iff, fun start w => ?_, fun source place found h => ?_⟩
  · rw [Walker.resolve_apply]
    cases resolve chain <;> rfl
  · unfold Script.parse Script.ofLexemes at h
    rcases hr : Parser.script (Cursor.ofLexemes (lexemes source)) with e | ⟨ss, c⟩
    · rw [hr] at h
      obtain rfl : e = _ := Except.error.inj h
      exact Parser.hereditary_sparesChains.script _ _ hr rfl
    · rw [hr] at h
      exact nomatch h

end CommandScript
