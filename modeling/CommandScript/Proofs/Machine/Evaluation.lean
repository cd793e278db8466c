import CommandScript.Proofs.Machine.StackDiscipline

/-!
Evaluation where the machine stands. Evaluating parts of an expression leaves the stack as deep as it
is, so the other parts are evaluated with as many calls left; how functions are entered need not be
handed on. The main statements say of each expression and statement what it does in terms of its
parts, and of the bodies that it enters.
-/

namespace CommandScript
set_option autoImplicit false

variable {σ α β : Type}

/-! ## Actions in a row -/

namespace Action

/-- An action with two parts fails in the first part, or in the second one behind it. -/
theorem bind_eq_error_iff {act : Action σ α} {next : α → Action σ β} {m m' : Machine σ}
    {e : RuntimeError} : (act >>= next) m = (.error e, m') ↔
      act m = (.error e, m') ∨ ∃ a m₁, act m = (.ok a, m₁) ∧ next a m₁ = (.error e, m') := by
  rw [bind_apply]
  rcases hact : act m with ⟨e' | a, m₁⟩
  · constructor
    · intro h
      cases h
      exact .inl rfl
    · rintro (h | ⟨a, m₁, h, -⟩)
      · cases h
        rfl
      · exact nomatch congrArg Prod.fst h
  · refine ⟨fun h => .inr ⟨a, m₁, rfl, h⟩, ?_⟩
    rintro (h | ⟨a', m₁', h, hnext⟩)
    · exact nomatch congrArg Prod.fst h
    · cases h
      exact hnext

theorem bind_eq_ok_iff {act : Action σ α} {next : α → Action σ β} {m m' : Machine σ} {b : β} :
    (act >>= next) m = (.ok b, m') ↔ ∃ a m₁, act m = (.ok a, m₁) ∧ next a m₁ = (.ok b, m') := by
  rw [bind_apply]
  rcases hact : act m with ⟨e | a, m₁⟩
  · refine iff_of_false (fun h => nomatch congrArg Prod.fst h) ?_
    rintro ⟨a, m₁, h, -⟩
    exact nomatch congrArg Prod.fst h
  · refine ⟨fun h => ⟨a, m₁, rfl, h⟩, ?_⟩
    rintro ⟨a', m₁', h, hnext⟩
    cases h
    exact hnext

theorem bind_of_ok {act : Action σ α} {next : α → Action σ β} {m m₁ : Machine σ} {a : α}
    (h : act m = (.ok a, m₁)) : (act >>= next) m = next a m₁ := by
  rw [bind_apply, h]

/-- The rest matters only on the machines that the first part leaves. -/
theorem bind_congr {act : Action σ α} {next next' : α → Action σ β} {m : Machine σ}
    (h : ∀ a m₁, act m = (.ok a, m₁) → next a m₁ = next' a m₁) :
    (act >>= next) m = (act >>= next') m := by
  rw [bind_apply, bind_apply]
  rcases hact : act m with ⟨e | a, m₁⟩
  · rfl
  · exact h a m₁ hact

end Action

namespace Machine

variable (commands : Registry σ)

/-! ## Depths -/

theorem depth_evaluate (e : Expr) {m : Machine σ} (h : 0 < m.depth) :
    (evaluate commands e m).2.depth = m.depth :=
  ((evaluate_moves commands e m).keepsOuter h).depth

/-- The values of expressions, evaluated from left to right where the machine stands. -/
def evaluateEach (es : List Expr) : Action σ (List Value) :=
  fun m => Expr.evaluateAll (m.entry commands) es m

theorem depth_evaluateEach (es : List Expr) {m : Machine σ} (h : 0 < m.depth) :
    (evaluateEach commands es m).2.depth = m.depth :=
  ((Expr.evaluateAll_moves (entryWithin_moves commands _) es m).keepsOuter h).depth

theorem depth_execute (s : Statement) {m : Machine σ} (h : 0 < m.depth) :
    (execute commands s m).2.depth = m.depth :=
  (execute_keepsOuter commands s h).depth

theorem depth_executeAll (ss : List Statement) {m : Machine σ} (h : 0 < m.depth) :
    (executeAll commands ss m).2.depth = m.depth :=
  (executeAll_keepsOuter commands ss h).depth

section

/-! The same of what an evaluation is known to end with. -/

variable {commands : Registry σ} {m m' : Machine σ}

theorem depth_of_evaluate {e : Expr} {r : Except RuntimeError Value}
    (h : evaluate commands e m = (r, m')) (hpos : 0 < m.depth) : m'.depth = m.depth := by
  have hdepth := depth_evaluate commands e hpos
  rwa [h] at hdepth

theorem depth_of_evaluateEach {es : List Expr} {r : Except RuntimeError (List Value)}
    (h : evaluateEach commands es m = (r, m')) (hpos : 0 < m.depth) : m'.depth = m.depth := by
  have hdepth := depth_evaluateEach commands es hpos
  rwa [h] at hdepth

theorem depth_of_execute {s : Statement} {r : Except RuntimeError Unit}
    (h : execute commands s m = (r, m')) (hpos : 0 < m.depth) : m'.depth = m.depth := by
  have hdepth := depth_execute commands s hpos
  rwa [h] at hdepth

theorem depth_of_executeAll {ss : List Statement} {r : Except RuntimeError Unit}
    (h : executeAll commands ss m = (r, m')) (hpos : 0 < m.depth) : m'.depth = m.depth := by
  have hdepth := depth_executeAll commands ss hpos
  rwa [h] at hdepth

end

theorem entry_congr {m m' : Machine σ} (h : m'.depth = m.depth) :
    m'.entry commands = m.entry commands := by
  rw [entry, entry, h]

/-! ## Expressions -/

theorem evaluate_assign (name : String) (value : Expr) (m : Machine σ) :
    evaluate commands (.assign name value) m =
      (do
        let v ← evaluate commands value
        Action.change (set name v)
        pure v : Action σ Value) m := by
  rw [evaluate, Expr.evaluate]
  rfl

theorem evaluate_negate (e : Expr) (m : Machine σ) :
    evaluate commands (.negate e) m =
      (do
        match ← evaluate commands e with
        | .boolean b => pure (.boolean !b)
        | v => Action.fail (.cannotNegate v.type) : Action σ Value) m := by
  rw [evaluate, Expr.evaluate]
  rfl

theorem evaluate_binary (left : Expr) (op : Operator) (right : Expr) {m : Machine σ}
    (h : 0 < m.depth) :
    evaluate commands (.binary left op right) m =
      (do
        let l ← evaluate commands left
        let r ← evaluate commands right
        Action.ofExcept (op.apply l r) : Action σ Value) m := by
  have hdepth := depth_evaluate commands left h
  rw [evaluate, Expr.evaluate]
  refine Action.bind_congr fun l m₁ hl => ?_
  change evaluate commands left m = (.ok l, m₁) at hl
  rw [hl] at hdepth
  rw [Action.bind_apply, Action.bind_apply, evaluate, entry_congr commands hdepth]

/-- Runs the body of a function in a new frame that knows the parameters. -/
def enter (f : Function) (values : List Value) : Action σ Unit := do
  Action.change (note (.called f))
  Action.inNewFrame do
    Action.change (setParameters f.params values)
    executeAll commands f.body

theorem entry_eq_none_iff (m : Machine σ) : m.entry commands = none ↔ maxCallDepth < m.depth := by
  unfold entry
  cases hroom : maxCallDepth + 1 - m.depth with
  | zero => exact iff_of_true rfl (by omega)
  | succ n => exact iff_of_false nofun (by omega)

theorem enter_of_entry {m : Machine σ} {enter' : Entry σ} (h : m.entry commands = some enter')
    (f : Function) (values : List Value) : enter' f values m = enter commands f values m := by
  -- The body begins one frame further up, so it has one call less left.
  unfold entry at h
  cases hroom : maxCallDepth + 1 - m.depth with
  | zero =>
    rw [hroom] at h
    exact nomatch h
  | succ n =>
    rw [hroom] at h
    obtain rfl := Option.some.inj h
    have hpos : 0 < (m.note (.called f)).push.depth := Nat.succ_pos _
    have hdepth := ((setParameters_moves f.params values (m.note (.called f)).push).keepsOuter
      hpos).depth
    have hroot := ensureRoot_of_depth_pos (hdepth.symm ▸ hpos)
    have hleft : maxCallDepth + 1 - (setParameters f.params values (m.note (.called f)).push).depth
        = n := by
      have hpush : (m.note (.called f)).push.depth = m.depth + 1 := rfl
      omega
    unfold enter
    simp only [Action.bind_apply, Action.change, Action.inNewFrame, executeAll, entry, hroot, hleft]

theorem evaluate_call (name : String) (args : List Expr) (m : Machine σ) (h : 0 < m.depth) :
    evaluate commands (.call name args) m =
      (do
        match ← Action.function? name with
        | none => Action.fail (.functionNotFound name)
        | some f =>
          if args.length < f.arity then
            Action.fail (.tooFewForFunction name args.length f.arity)
          else if f.arity < args.length then
            Action.fail (.tooManyForFunction name args.length f.arity)
          else if maxCallDepth < m.depth then
            Action.fail (.callTooDeep name)
          else do
            let values ← evaluateEach commands args
            enter commands f values
            pure .null : Action σ Value) m := by
  rw [evaluate, Expr.evaluate]
  refine Action.bind_congr fun found m₁ hfound => ?_
  obtain rfl : m.note (.soughtFunction name) = m₁ := congrArg Prod.snd hfound
  cases found with
  | none => rfl
  | some f =>
    dsimp only
    split
    · rfl
    split
    · rfl
    cases hentry : m.entry commands with
    | none => rw [if_pos ((entry_eq_none_iff commands m).mp hentry)]
    | some enter' =>
      have hroom : ¬maxCallDepth < m.depth := by
        rw [← entry_eq_none_iff commands m, hentry]
        exact Option.some_ne_none enter'
      have hdepth := depth_evaluateEach commands args (m := m.note (.soughtFunction name)) h
      rw [if_neg hroom]
      dsimp only
      rw [← hentry]
      refine Action.bind_congr fun values m₂ hvalues => ?_
      change evaluateEach commands args (m.note (.soughtFunction name)) = (.ok values, m₂) at hvalues
      rw [hvalues] at hdepth
      have hsame : m₂.entry commands = some enter' := (entry_congr commands hdepth).trans hentry
      rw [Action.bind_apply, Action.bind_apply, enter_of_entry commands hsame]

@[simp] theorem evaluateEach_nil (m : Machine σ) : evaluateEach commands [] m = (.ok [], m) := by
  rw [evaluateEach, Expr.evaluateAll]
  rfl

theorem evaluateEach_cons (e : Expr) (es : List Expr) {m : Machine σ} (h : 0 < m.depth) :
    evaluateEach commands (e :: es) m =
      (do
        let v ← evaluate commands e
        let vs ← evaluateEach commands es
        pure (v :: vs) : Action σ (List Value)) m := by
  have hdepth := depth_evaluate commands e h
  rw [evaluateEach, Expr.evaluateAll]
  refine Action.bind_congr fun v m₁ hv => ?_
  change evaluate commands e m = (.ok v, m₁) at hv
  rw [hv] at hdepth
  rw [Action.bind_apply, Action.bind_apply, evaluateEach, entry_congr commands hdepth]

/-- A list has values just if its first expression has one and then the others have theirs. -/
theorem evaluateEach_cons_eq_ok_iff {e : Expr} {es : List Expr} {m m' : Machine σ} {vs : List Value}
    (h : 0 < m.depth) : evaluateEach commands (e :: es) m = (.ok vs, m') ↔
      ∃ v m₁ rest, evaluate commands e m = (.ok v, m₁) ∧
        evaluateEach commands es m₁ = (.ok rest, m') ∧ vs = v :: rest := by
  rw [evaluateEach_cons commands e es h, Action.bind_eq_ok_iff]
  constructor
  · rintro ⟨v, m₁, he, hrest⟩
    obtain ⟨rest, m₂, hes, hpure⟩ := Action.bind_eq_ok_iff.mp hrest
    cases hpure
    exact ⟨v, m₁, rest, he, hes, rfl⟩
  · rintro ⟨v, m₁, rest, he, hes, rfl⟩
    exact ⟨v, m₁, he, Action.bind_of_ok hes⟩

/-! ## Statements -/

theorem execute_command (place : Location) (name : String) (args : List Expr) (m : Machine σ) :
    execute commands (.command place name args) m =
      match commands.find? name with
      | none => (.error (.ofFailure (.commandNotFound name)),
          m.note (.interpreting (.command place name args)))
      | some c =>
        (do
          let values ← evaluateEach commands args
          Action.change (note (.dispatched name values.length))
          Action.invoke c values : Action σ Unit) (m.note (.interpreting (.command place name args))) := by
  rw [execute, Statement.execute, Action.bind_apply]
  dsimp only [Action.change]
  cases commands.find? name with
  | none => rfl
  | some c => rfl

theorem execute_expression (place : Location) (e : Expr) (m : Machine σ) :
    execute commands (.expression place e) m =
      (do
        let _ ← evaluate commands e
        pure () : Action σ Unit) (m.note (.interpreting (.expression place e))) := by
  rw [execute, Statement.execute, Action.bind_apply]
  rfl

theorem executeAll_nil {m : Machine σ} (h : 0 < m.depth) : executeAll commands [] m = (.ok (), m) := by
  rw [executeAll, ensureRoot_of_depth_pos h, Statement.executeEach]

theorem executeAll_cons (s : Statement) (ss : List Statement) {m : Machine σ} (h : 0 < m.depth) :
    executeAll commands (s :: ss) m =
      match execute commands s m with
      | (.ok (), m') => executeAll commands ss m'
      | (.error e, m') => (.error (e.atLine s.place.line), m') := by
  have hdepth := depth_execute commands s h
  rw [executeAll, ensureRoot_of_depth_pos h, Statement.executeEach]
  change (match execute commands s m with
    | (.ok (), m') => Statement.executeEach commands (m.entry commands) ss m'
    | (.error e, m') => (.error (e.atLine s.place.line), m')) = _
  rcases hs : execute commands s m with ⟨e | _, m'⟩
  · rfl
  · rw [hs] at hdepth
    dsimp only at hdepth ⊢
    rw [executeAll, ensureRoot_of_depth_pos (hdepth.symm ▸ h), entry_congr commands hdepth]

/-- What each statement does to machines statements in a row do, if it may be done again and again. -/
theorem executeAll_induction {R : Machine σ → Machine σ → Prop} (hrefl : ∀ m, R m m)
    (htrans : ∀ m m' m'', R m m' → R m' m'' → R m m'') {ss : List Statement}
    (hexecute : ∀ s ∈ ss, ∀ m, R m (execute commands s m).2) {m : Machine σ} (hpos : 0 < m.depth) :
    R m (executeAll commands ss m).2 := by
  induction ss generalizing m with
  | nil =>
    rw [executeAll_nil commands hpos]
    exact hrefl m
  | cons s ss ih =>
    rw [List.forall_mem_cons] at hexecute
    have hs := hexecute.1 m
    rw [executeAll_cons commands s ss hpos]
    rcases hr : execute commands s m with ⟨e | _, m'⟩
    · rw [hr] at hs
      exact hs
    · rw [hr] at hs
      have hdepth := depth_of_execute hr hpos
      exact htrans m m' _ hs (ih hexecute.2 (hdepth.symm ▸ hpos))

end Machine

end CommandScript
