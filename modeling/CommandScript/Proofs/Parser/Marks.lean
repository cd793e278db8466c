import CommandScript.Proofs.Parser.Hereditary

/-!
The marks of a cursor. A parser may mark a place to go back to it, and it takes each of its marks away
again before it answers. This needs nothing of the lexemes, which may also be such as no source has.
-/

namespace CommandScript
namespace Parser
set_option autoImplicit false

variable {α β : Type} {p : Parser α} {f : α → Parser β}

/-- Where the parser answers, the marks are as they were. -/
def Balanced (p : Parser α) : Prop := ∀ c a c', p c = .ok (a, c') → c'.checkpoints = c.checkpoints

theorem balanced_bind {answers : α → Prop} (hp : Balanced p) (hgives : Gives p answers)
    (hf : ∀ a, answers a → Balanced (f a)) : Balanced (p >>= f) := by
  intro c b c'' h
  rw [bind_apply] at h
  rcases hr : p c with e | ⟨a, c'⟩
  · rw [hr] at h
    exact nomatch h
  · rw [hr] at h
    exact (hf a (hgives c a c' hr) c' b c'' h).trans (hp c a c' hr)

/-- The mark of an attempt is gone when it ends. -/
theorem balanced_attempt {p : Parser (Option α)} (hp : Balanced p) : Balanced (attempt p) := by
  intro c o c' h
  rcases hr : p c.mark with e | ⟨_ | a, c''⟩
  · rw [attempt_apply_error hr] at h
    exact nomatch h
  · have hmarks := hp c.mark none c'' hr
    rw [attempt_apply_none hr] at h
    cases h
    change c''.rollback.checkpoints = c.checkpoints
    unfold Cursor.rollback
    rw [hmarks]
    rfl
  · have hmarks := hp c.mark (some a) c'' hr
    rw [attempt_apply_some hr] at h
    cases h
    exact congrArg List.tail hmarks

theorem balanced_manyWithin {step : Parser (Option α)} (hstep : Balanced step)
    (rounds : List Lexeme) (found : List α) : Balanced (manyWithin step found rounds) := by
  induction rounds generalizing found with
  | nil =>
    intro c as c' h
    cases h
    rfl
  | cons x rounds ih =>
    intro c as c' h
    unfold manyWithin at h
    rcases hr : step c with e | ⟨_ | a, c''⟩
    · rw [hr] at h
      cases h
    · rw [hr] at h
      cases h
      exact hstep c none c' hr
    · rw [hr] at h
      exact (ih (a :: found) c'' as c' h).trans (hstep c (some a) c'' hr)

/-- All productions take their marks away again. -/
theorem hereditary_balanced : Hereditary fun _ p => Balanced p where
  move go hgo c a c' h := by
    have hmarks := hgo c
    rwa [Except.ok.inj h] at hmarks
  fail _ _ _ := fun _ _ _ h => nomatch h
  bind := balanced_bind
  attempt := balanced_attempt
  many hstep c := balanced_manyWithin hstep _ [] c

end Parser
end CommandScript
