import CommandScript.Proofs.Machine.Moves
import CommandScript.Proofs.Machine.Origins

/-!
Uniform actions: what they do is one ending for all places of the source that moves. Statements are
run uniformly, and so are the functions that they call, wherever these were declared.
-/

namespace CommandScript
set_option autoImplicit false

variable {σ α β γ δ : Type}

/-! ## Endings -/

/-- How something ends, wherever the source that moves stands. -/
structure Ending (σ β : Type) where
  result : Except TracedError β
  state : TracedState σ

/-- What is seen of an ending if the source that moves is moved down by `k` lines; an answer is then
what `answer` makes of it. -/
structure Ending.Seen (answer : Nat → β → α) (k : Nat) (o : Ending σ β)
    (r : Except RuntimeError α × Machine σ) : Prop where
  result : r.1 = (o.result.map (answer k)).mapError (TracedError.error k)
  state : o.state.Shown k r.2

namespace Ending

variable {answer : Nat → β → α} {k : Nat} {w : TracedState σ} {r : Except RuntimeError α × Machine σ}

theorem Seen.error {e : TracedError} (h : Seen answer k ⟨.error e, w⟩ r) :
    ∃ m, r = (.error (e.error k), m) ∧ w.Shown k m :=
  ⟨r.2, Prod.ext h.result rfl, h.state⟩

theorem Seen.ok {b : β} (h : Seen answer k ⟨.ok b, w⟩ r) :
    ∃ m, r = (.ok (answer k b), m) ∧ w.Shown k m :=
  ⟨r.2, Prod.ext h.result rfl, h.state⟩

end Ending

namespace Action

/-- The answer does not depend on any place. -/
abbrev unmoved : Nat → α → α := fun _ a => a

/-- From each state there is one ending for all places of the source that moves. -/
def Uniform (answer : Nat → β → α) (act : Nat → Action σ α) : Prop :=
  ∀ w : TracedState σ, ∃ o : Ending σ β, ∀ k m, w.Shown k m → o.Seen answer k (act k m)

variable {answer : Nat → β → α} {answer' : Nat → δ → γ}

theorem uniform_pure {a : Nat → α} {b : β} (h : ∀ k, a k = answer k b) :
    Uniform answer fun k => (pure (a k) : Action σ α) :=
  fun w => ⟨⟨.ok b, w⟩, fun k _ hm => ⟨congrArg Except.ok (h k), hm⟩⟩

theorem uniform_fail (f : Failure) : Uniform answer fun _ => (fail f : Action σ α) :=
  fun w => ⟨⟨.error (.ofFailure f), w⟩, fun _ _ hm => ⟨rfl, hm⟩⟩

theorem uniform_ofExcept (r : Except Failure α) :
    Uniform unmoved fun _ => (ofExcept r : Action σ α) := by
  intro w
  refine ⟨⟨r.mapError TracedError.ofFailure, w⟩, fun k m hm => ⟨?_, hm⟩⟩
  cases r <;> rfl

theorem uniform_bind {act : Nat → Action σ α} {next : Nat → α → Action σ γ}
    (h : Uniform answer act) (hnext : ∀ b, Uniform answer' fun k => next k (answer k b)) :
    Uniform answer' fun k => act k >>= next k := by
  intro w
  obtain ⟨⟨r, w'⟩, ho⟩ := h w
  cases r with
  | error e =>
    refine ⟨⟨.error e, w'⟩, fun k m hm => ?_⟩
    obtain ⟨m', hact, hm'⟩ := (ho k m hm).error
    dsimp only
    rw [bind_apply, hact]
    exact ⟨rfl, hm'⟩
  | ok b =>
    obtain ⟨o, ho'⟩ := hnext b w'
    refine ⟨o, fun k m hm => ?_⟩
    obtain ⟨m', hact, hm'⟩ := (ho k m hm).ok
    dsimp only
    rw [bind_apply, hact]
    exact ho' k m' hm'

theorem uniform_then {act : Nat → Action σ α} {next : Nat → α → Action σ γ}
    (h : Uniform unmoved act) (hnext : ∀ a, Uniform answer' fun k => next k a) :
    Uniform answer' fun k => act k >>= next k :=
  uniform_bind h hnext

theorem uniform_change {change : Nat → Machine σ → Machine σ}
    {change' : TracedState σ → TracedState σ}
    (h : ∀ k w m, w.Shown k m → (change' w).Shown k (change k m)) :
    Uniform unmoved fun k => Action.change (change k) :=
  fun w => ⟨⟨.ok (), change' w⟩, fun k m hm => ⟨rfl, h k w m hm⟩⟩

theorem uniform_note {e : Nat → Event} (he : ∀ k, (e k).invocation? = none) :
    Uniform unmoved fun k => (Action.change (Machine.note (e k)) : Action σ Unit) :=
  uniform_change fun k _ _ hm => hm.note (he k)

theorem uniform_get (name : String) : Uniform unmoved fun _ => (get name : Action σ Value) :=
  fun w => ⟨⟨.ok (w.get name), w⟩, fun _ _ hm => ⟨congrArg Except.ok (hm.get name), hm.note rfl⟩⟩

theorem uniform_function? (name : String) :
    Uniform (fun k => Option.map (Traced.function k))
      fun _ => (function? name : Action σ (Option Function)) :=
  fun w => ⟨⟨.ok (w.function? name), w⟩,
    fun _ _ hm => ⟨congrArg Except.ok (hm.function? name), hm.note rfl⟩⟩

theorem uniform_invoke (c : Command σ) (values : List Value) :
    Uniform unmoved fun _ => invoke c values := by
  intro w
  cases hbind : c.bind values with
  | error f =>
    refine ⟨⟨.error (.ofFailure f), w⟩, fun k m hm => ?_⟩
    unfold invoke
    rw [hbind]
    exact ⟨rfl, hm⟩
  | ok args =>
    let r := c.perform args w.host
    refine ⟨⟨r.1.mapError TracedError.ofFailure,
      { w with host := r.2, calls := w.calls.map (⟨c.name, args⟩ :: ·) }⟩, fun k m hm => ?_⟩
    unfold invoke
    rw [hbind]
    dsimp only
    rw [hm.host]
    refine ⟨?_, hm.frames, rfl, ?_⟩
    · change r.1.mapError _ = _
      cases r.1 <;> rfl
    · rw [← hm.journal]
      exact invocations_note_invoked c.name args m

theorem uniform_inNewFrame {act : Nat → Action σ α} (h : Uniform answer act) :
    Uniform answer fun k => inNewFrame (act k) := by
  intro w
  obtain ⟨o, ho⟩ := h w.push
  refine ⟨⟨o.result, o.state.pop⟩, fun k m hm => ?_⟩
  obtain ⟨hresult, hstate⟩ := ho k m.push hm.push
  exact ⟨hresult, hstate.pop⟩

end Action

/-! ## Expressions -/

open CommandScript.Action

/-- Functions are entered in the same way, wherever they stand. -/
def EntersUniformly (entry : Option (Entry σ)) : Prop :=
  ∀ enter, entry = some enter → ∀ (f : Traced Function) values,
    Uniform unmoved fun k => enter (f.function k) values

mutual

theorem Expr.evaluate_uniform {entry : Option (Entry σ)} (hentry : EntersUniformly entry) :
    ∀ e : Expr, Uniform unmoved fun _ => e.evaluate entry
  | .literal value => by
    rw [evaluate]
    exact uniform_pure fun _ => rfl
  | .variable name => by
    rw [evaluate]
    exact uniform_get name
  | .assign name value => by
    have hvalue := evaluate_uniform hentry value
    rw [evaluate]
    apply uniform_then hvalue
    intro v
    have hset : Uniform unmoved fun _ => Action.change (σ := σ) (Machine.set name v) :=
      uniform_change fun _ _ _ hm => hm.set name v
    exact uniform_then hset fun _ => uniform_pure fun _ => rfl
  | .negate e => by
    have he := evaluate_uniform hentry e
    rw [evaluate]
    apply uniform_then he
    intro v
    cases v with
    | boolean b => exact uniform_pure fun _ => rfl
    | number _ | text _ | null => exact uniform_fail _
  | .binary left op right => by
    have hleft := evaluate_uniform hentry left
    have hright := evaluate_uniform hentry right
    rw [evaluate]
    apply uniform_then hleft
    intro l
    apply uniform_then hright
    intro r
    exact uniform_ofExcept _
  | .call name args => by
    have hargs := evaluateAll_uniform hentry args
    rw [evaluate]
    apply uniform_bind (uniform_function? name)
    intro found
    cases found with
    | none => exact uniform_fail _
    | some f =>
      have harity (k : Nat) : (f.function k).arity = f.value.arity := f.value.arity_down _
      dsimp only [Option.map_some]
      simp only [harity]
      split
      · exact uniform_fail _
      split
      · exact uniform_fail _
      cases entry with
      | none => exact uniform_fail _
      | some enter =>
        apply uniform_then hargs
        intro values
        exact uniform_then (hentry enter rfl f values) fun _ => uniform_pure fun _ => rfl

theorem Expr.evaluateAll_uniform {entry : Option (Entry σ)} (hentry : EntersUniformly entry) :
    ∀ es : List Expr, Uniform unmoved fun _ => evaluateAll entry es
  | [] => by
    rw [evaluateAll]
    exact uniform_pure fun _ => rfl
  | e :: es => by
    have he := Expr.evaluate_uniform hentry e
    have hes := evaluateAll_uniform hentry es
    rw [evaluateAll]
    apply uniform_then he
    intro v
    apply uniform_then hes
    intro vs
    exact uniform_pure fun _ => rfl

end

/-! ## Statements -/

section

variable (commands : Registry σ) {entry : Option (Entry σ)}

theorem Statement.execute_uniform (hentry : EntersUniformly entry) (s : Traced Statement) :
    Uniform unmoved fun k => (s.statement k).execute commands entry := by
  obtain ⟨origin, s⟩ := s
  unfold execute
  apply uniform_then (uniform_note fun _ => rfl)
  intro _
  cases s with
  | command place name args =>
    dsimp only [Traced.statement, Statement.down]
    cases commands.find? name with
    | none => exact uniform_fail _
    | some c =>
      apply uniform_then (Expr.evaluateAll_uniform hentry args)
      intro values
      apply uniform_then (uniform_note fun _ => rfl)
      intro _
      exact uniform_invoke c values
  | expression place e =>
    apply uniform_then (Expr.evaluate_uniform hentry e)
    intro _
    exact uniform_pure fun _ => rfl
  | declaration place name params body =>
    let f : Traced Function := ⟨origin, ⟨name, params, body⟩⟩
    have hf (k : Nat) : f.function k = ⟨name, params, Statement.downAll (origin.lines k) body⟩ := by
      rw [Statement.downAll_eq]
      rfl
    dsimp only [Traced.statement, Statement.down]
    simp only [← hf]
    exact uniform_change fun _ _ _ hm => hm.declare f

theorem Statement.executeEach_uniform (hentry : EntersUniformly entry)
    (ss : List (Traced Statement)) :
    Uniform unmoved fun k => executeEach commands entry (ss.map (Traced.statement k)) := by
  induction ss with
  | nil => exact uniform_pure fun _ => rfl
  | cons s ss ih =>
    intro w
    obtain ⟨⟨r, w'⟩, ho⟩ := execute_uniform commands hentry s w
    cases r with
    | error e =>
      let line : Traced Nat := ⟨s.origin, s.value.place.line⟩
      refine ⟨⟨.error (e.atLine line), w'⟩, fun k m hm => ?_⟩
      obtain ⟨m', hs, hm'⟩ := (ho k m hm).error
      have hline : (s.statement k).place.line = line.line k :=
        congrArg Location.line (Statement.place_down _ s.value)
      dsimp only at hs ⊢
      rw [List.map_cons, executeEach, hs]
      dsimp only
      rw [hline]
      exact ⟨congrArg Except.error (TracedError.error_atLine k line e).symm, hm'⟩
    | ok _ =>
      obtain ⟨o, ho'⟩ := ih w'
      refine ⟨o, fun k m hm => ?_⟩
      obtain ⟨m', hs, hm'⟩ := (ho k m hm).ok
      dsimp only at hs ⊢
      rw [List.map_cons, executeEach, hs]
      exact ho' k m' hm'

/-! ## Calls and runs -/

theorem TracedState.Shown.setParameters {k : Nat} (params : List Parameter) (values : List Value)
    {w : TracedState σ} {m : Machine σ} (h : w.Shown k m) :
    ((params.zip values).foldl (fun w pv => w.set pv.1.name pv.2) w).Shown k
      (setParameters params values m) := by
  unfold CommandScript.setParameters
  induction params.zip values generalizing w m with
  | nil => exact h
  | cons pv pvs ih => exact ih (h.set pv.1.name pv.2)

theorem entryWithin_uniform (n : Nat) : EntersUniformly (entryWithin commands n) := by
  -- A body may call functions from both sources, each a level below; its own origin is that of its
  -- function, whoever calls.
  induction n with
  | zero => exact fun enter h => nomatch h
  | succ n ih =>
    intro enter h f values
    obtain rfl := Option.some.inj h
    have hset : Uniform unmoved fun k =>
        Action.change (σ := σ) (setParameters (f.function k).params values) :=
      uniform_change fun _ _ _ hm => hm.setParameters f.value.params values
    have hbody := Statement.executeEach_uniform commands ih (f.value.body.map (Traced.mk f.origin))
    simp only [List.map_map] at hbody
    apply uniform_then (uniform_note fun _ => rfl)
    intro _
    apply uniform_inNewFrame
    exact uniform_then hset fun _ => hbody

theorem Machine.executeAll_uniform (ss : List (Traced Statement)) :
    Uniform unmoved fun k => executeAll commands (ss.map (Traced.statement k)) := by
  intro w
  have hentry := entryWithin_uniform commands (maxCallDepth + 1 - w.ensureRoot.frames.length)
  obtain ⟨o, ho⟩ := Statement.executeEach_uniform commands hentry ss w.ensureRoot
  refine ⟨o, fun k m hm => ?_⟩
  have hroot := hm.ensureRoot
  dsimp only
  rw [executeAll, Machine.entry, hroot.depth]
  exact ho k _ hroot

end

end CommandScript
