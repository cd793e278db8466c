import CommandScript.Parser.Basic

/-!
Walks and their recursion. Nothing in a walk rules out that it goes on for ever, so walkers that call
one another are what they come to as more and more calls may stand inside one another (`fix`). They do
what a step with calls of themselves does (`fix_eq`), if the step is continuous.
-/

namespace CommandScript
set_option autoImplicit false

/-! ## Walks -/

/-- How far a walk is: the index of the next lexeme, the indices to go back to, the latest first,
whether the body of a function is being read, and how many operands are being read, one inside the
other. `deepest` is the greatest value of that counter so far; no step depends on it. -/
structure Walk where
  index : Nat
  marks : List Nat
  inFunction : Bool
  nesting : Nat
  deepest : Nat
  deriving DecidableEq

/-- Why a walk stops before its end: the lexemes are at fault, or an index has no lexeme or link. -/
inductive Halt where
  | fault (e : ParseError)
  | outOfRange
  deriving DecidableEq

/-- A walk that ends has an outcome; one without outcome goes on for ever. -/
abbrev Walker (α : Type) := ExceptT Halt (StateT Walk Option) α

namespace Walker

variable {α β : Type}

theorem bind_apply (p : Walker α) (f : α → Walker β) (w : Walk) :
    (p >>= f) w =
      match p w with
      | none => none
      | some (.ok a, w') => f a w'
      | some (.error halt, w') => some (.error halt, w') := by
  change (p w >>= fun r => ExceptT.bindCont f r.1 r.2) = _
  rcases p w with _ | ⟨halt | a, w'⟩ <;> rfl

/-! ## What walkers come to -/

/-- The walkers have no outcome that `u` has not, and from some of them on they have each one of `u`. -/
structure ComeTo (p : Nat → Walker α) (u : Walker α) : Prop where
  sound : ∀ n w r, p n w = some r → u w = some r
  reached : ∀ w r, u w = some r → ∃ n, ∀ m, n ≤ m → p m w = some r

namespace ComeTo

variable {p : Nat → Walker α} {u v : Walker α}

theorem unique (hu : ComeTo p u) (hv : ComeTo p v) : u = v := by
  funext w
  apply Option.ext
  intro r
  constructor
  · intro h
    obtain ⟨n, hn⟩ := hu.reached w r h
    exact hv.sound n w r (hn n (Nat.le_refl n))
  · intro h
    obtain ⟨n, hn⟩ := hv.reached w r h
    exact hu.sound n w r (hn n (Nat.le_refl n))

theorem succ (h : ComeTo p u) : ComeTo (fun n => p (n + 1)) u := by
  refine ⟨fun n => h.sound (n + 1), fun w r hr => ?_⟩
  obtain ⟨n, hn⟩ := h.reached w r hr
  exact ⟨n, fun m hm => hn (m + 1) (Nat.le_succ_of_le hm)⟩

theorem const (u : Walker α) : ComeTo (fun _ => u) u :=
  ⟨fun _ _ _ h => h, fun _ _ h => ⟨0, fun _ _ => h⟩⟩

theorem bind {f : Nat → α → Walker β} {g : α → Walker β} (h : ComeTo p u)
    (hnext : ∀ a, ComeTo (fun n => f n a) (g a)) : ComeTo (fun n => p n >>= f n) (u >>= g) := by
  constructor
  · intro n w r hr
    rw [bind_apply] at hr ⊢
    rcases hp : p n w with _ | ⟨halt | a, w'⟩
    · rw [hp] at hr
      exact nomatch hr
    · rw [hp] at hr
      rw [h.sound n w _ hp]
      exact hr
    · rw [hp] at hr
      rw [h.sound n w _ hp]
      exact (hnext a).sound n w' r hr
  · intro w r hr
    rw [bind_apply] at hr
    rcases hu : u w with _ | ⟨halt | a, w'⟩
    · rw [hu] at hr
      exact nomatch hr
    · rw [hu] at hr
      obtain ⟨n, hn⟩ := h.reached w _ hu
      refine ⟨n, fun m hm => ?_⟩
      rw [bind_apply, hn m hm]
      exact hr
    · rw [hu] at hr
      obtain ⟨n, hn⟩ := h.reached w _ hu
      obtain ⟨k, hk⟩ := (hnext a).reached w' r hr
      refine ⟨max n k, fun m hm => ?_⟩
      obtain ⟨hnm, hkm⟩ := Nat.max_le.mp hm
      rw [bind_apply, hn m hnm]
      exact hk m hkm

theorem after (q : Walker β) {f : Nat → β → Walker α} {g : β → Walker α}
    (hnext : ∀ b, ComeTo (fun n => f n b) (g b)) : ComeTo (fun n => q >>= f n) (q >>= g) :=
  (const q).bind hnext

theorem map (f : α → β) (h : ComeTo p u) : ComeTo (fun n => f <$> p n) (f <$> u) := by
  simp only [map_eq_pure_bind]
  exact h.bind fun a => const (pure (f a))

theorem ite {c : Prop} [Decidable c] {q : Nat → Walker α} (hu : ComeTo p u) (hv : ComeTo q v) :
    ComeTo (fun n => if c then p n else q n) (if c then u else v) := by
  by_cases h : c
  · simp only [if_pos h]
    exact hu
  · simp only [if_neg h]
    exact hv

/-- What is done to a walk before and behind a walker makes no difference. -/
theorem around (before behind : Walk → Walk) (h : ComeTo p u) :
    ComeTo (fun n w => (p n (before w)).bind fun r => some (r.1, behind r.2))
      (fun w => (u (before w)).bind fun r => some (r.1, behind r.2)) := by
  constructor
  · intro n w r hr
    obtain ⟨r', hp, hr'⟩ := Option.bind_eq_some_iff.mp hr
    exact Option.bind_eq_some_iff.mpr ⟨r', h.sound n _ r' hp, hr'⟩
  · intro w r hr
    obtain ⟨r', hu, hr'⟩ := Option.bind_eq_some_iff.mp hr
    obtain ⟨n, hn⟩ := h.reached _ r' hu
    exact ⟨n, fun m hm => Option.bind_eq_some_iff.mpr ⟨r', hn m hm, hr'⟩⟩

end ComeTo

/-! ## Recursion -/

variable {ι : Type} {answer : ι → Type}

/-- Walkers that call one another, at most `n` calls inside one another. A further one never ends. -/
def fixWithin (step : (∀ i, Walker (answer i)) → ∀ i, Walker (answer i)) :
    Nat → ∀ i, Walker (answer i)
  | 0 => fun _ _ => none
  | n + 1 => step (fixWithin step n)

open Classical in
/-- Walkers that call one another, as many calls inside one another as it takes. -/
noncomputable def fix (step : (∀ i, Walker (answer i)) → ∀ i, Walker (answer i)) (i : ι) :
    Walker (answer i) := fun w =>
  if h : ∃ n, (fixWithin step n i w).isSome then fixWithin step h.choose i w else none

/-- If calls come to something, so does what is done with them, and to what is done with that. -/
def Continuous (step : (∀ i, Walker (answer i)) → ∀ i, Walker (answer i)) : Prop :=
  ∀ (call : Nat → ∀ i, Walker (answer i)) (called : ∀ i, Walker (answer i)),
    (∀ i, ComeTo (fun n => call n i) (called i)) →
      ∀ i, ComeTo (fun n => step (call n) i) (step called i)

section

variable {step : (∀ i, Walker (answer i)) → ∀ i, Walker (answer i)} (hstep : Continuous step)

include hstep

/-- One more call inside the others takes no outcome away: it is the limit of calls without it. -/
theorem fixWithin_succ (n : Nat) (i : ι) (w : Walk) (r : Except Halt (answer i) × Walk)
    (h : fixWithin step n i w = some r) : fixWithin step (n + 1) i w = some r := by
  induction n generalizing i w r with
  | zero => exact nomatch h
  | succ n ih =>
    have hcall (i : ι) : ComeTo (fun k => if k = 0 then fixWithin step n i else fixWithin step (n + 1) i)
        (fixWithin step (n + 1) i) := by
      constructor
      · intro k w r hr
        split at hr
        · exact ih i w r hr
        · exact hr
      · intro w r hr
        refine ⟨1, fun m hm => ?_⟩
        rw [if_neg (Nat.ne_of_gt hm)]
        exact hr
    have hstepped := (hstep (fun k i => if k = 0 then _ else _) _ hcall i).sound 0 w r
    exact hstepped h

theorem fixWithin_le {n m : Nat} (hle : n ≤ m) (i : ι) (w : Walk) (r : Except Halt (answer i) × Walk)
    (h : fixWithin step n i w = some r) : fixWithin step m i w = some r := by
  induction hle with
  | refl => exact h
  | step _ ih => exact fixWithin_succ hstep _ i w r ih

theorem comeTo_fix (i : ι) : ComeTo (fun n => fixWithin step n i) (fix step i) := by
  have happly {n : Nat} {w : Walk} {r : Except Halt (answer i) × Walk}
      (h : fixWithin step n i w = some r) : fix step i w = some r := by
    have hsome : ∃ n, (fixWithin step n i w).isSome := ⟨n, Option.isSome_of_eq_some h⟩
    obtain ⟨r', hr'⟩ := Option.isSome_iff_exists.mp hsome.choose_spec
    have hsame := (fixWithin_le hstep (Nat.le_max_left n hsome.choose) i w r h).symm.trans
      (fixWithin_le hstep (Nat.le_max_right n hsome.choose) i w r' hr')
    exact (dif_pos hsome).trans (hr'.trans hsame.symm)
  refine ⟨fun n w r h => happly h, fun w r h => ?_⟩
  by_cases hsome : ∃ n, (fixWithin step n i w).isSome
  · have hchoose : fixWithin step hsome.choose i w = some r := (dif_pos hsome).symm.trans h
    exact ⟨hsome.choose, fun m hm => fixWithin_le hstep hm i w r hchoose⟩
  · exact nomatch (dif_neg hsome).symm.trans h

/-- Walkers that call one another do what a step does whose calls they are. -/
theorem fix_eq (i : ι) : fix step i = step (fix step) i :=
  (comeTo_fix hstep i).succ.unique (hstep _ _ (comeTo_fix hstep) i)

end

end Walker
end CommandScript
