import CommandScript.Proofs.Command.Binding
import CommandScript.Proofs.Machine.Evaluation

/-!
Where runs fail. An expression or a statement that fails comes, part by part, to a part that raises the
failure itself, or to a call whose body fails. The relations say which part that is and on which
machine; the main statements are that whatever fails does so in one of these ways, and that these ways
lead to the failure.
-/

namespace CommandScript
set_option autoImplicit false

variable {σ : Type}

namespace Machine

variable (commands : Registry σ)

/-! ## Parts of expressions -/

/-- A function with that many parameters has the name, and the stack leaves room for a call. -/
structure Admits (m : Machine σ) (name : String) (count : Nat) (f : Function) : Prop where
  found : m.frames.function? name = some f
  arity : f.arity = count
  room : m.depth ≤ maxCallDepth

/-- Evaluated from the first machine, the first expression comes to evaluate the second one, a part of
it, from the second machine: all that goes before has been evaluated. -/
inductive Reaches : Expr → Machine σ → Expr → Machine σ → Prop
  | here (e : Expr) (m : Machine σ) : Reaches e m e m
  | assigned {name : String} {value e : Expr} {m m' : Machine σ} (h : Reaches value m e m') :
      Reaches (.assign name value) m e m'
  | negated {inner e : Expr} {m m' : Machine σ} (h : Reaches inner m e m') :
      Reaches (.negate inner) m e m'
  | left {left right e : Expr} {op : Operator} {m m' : Machine σ} (h : Reaches left m e m') :
      Reaches (.binary left op right) m e m'
  | right {left right e : Expr} {op : Operator} {m m₁ m' : Machine σ} {l : Value}
      (hleft : evaluate commands left m = (.ok l, m₁)) (h : Reaches right m₁ e m') :
      Reaches (.binary left op right) m e m'
  | argument {name : String} {before after : List Expr} {arg e : Expr} {m m₁ m' : Machine σ}
      {f : Function} {values : List Value} (hf : m.Admits name (before ++ arg :: after).length f)
      (hbefore : evaluateEach commands before (m.note (.soughtFunction name)) = (.ok values, m₁))
      (h : Reaches arg m₁ e m') : Reaches (.call name (before ++ arg :: after)) m e m'

/-- The expression, evaluated from the first machine, raises the failure at the second one: its parts,
if they come first, have values. -/
inductive Raises : Expr → Machine σ → Failure → Machine σ → Prop
  | negation {e : Expr} {m m' : Machine σ} {v : Value} (he : evaluate commands e m = (.ok v, m'))
      (hv : v.type ≠ .boolean) : Raises (.negate e) m (.cannotNegate v.type) m'
  | operation {left right : Expr} {op : Operator} {m m₁ m' : Machine σ} {l r : Value} {f : Failure}
      (hleft : evaluate commands left m = (.ok l, m₁))
      (hright : evaluate commands right m₁ = (.ok r, m')) (h : op.apply l r = .error f) :
      Raises (.binary left op right) m f m'
  | unknown {name : String} {args : List Expr} {m : Machine σ}
      (h : m.frames.function? name = none) :
      Raises (.call name args) m (.functionNotFound name) (m.note (.soughtFunction name))
  | tooFew {name : String} {args : List Expr} {m : Machine σ} {f : Function}
      (hf : m.frames.function? name = some f) (h : args.length < f.arity) :
      Raises (.call name args) m (.tooFewForFunction name args.length f.arity)
        (m.note (.soughtFunction name))
  | tooMany {name : String} {args : List Expr} {m : Machine σ} {f : Function}
      (hf : m.frames.function? name = some f) (h : f.arity < args.length) :
      Raises (.call name args) m (.tooManyForFunction name args.length f.arity)
        (m.note (.soughtFunction name))
  | tooDeep {name : String} {args : List Expr} {m : Machine σ} {f : Function}
      (hf : m.frames.function? name = some f) (harity : f.arity = args.length)
      (h : maxCallDepth < m.depth) :
      Raises (.call name args) m (.callTooDeep name) (m.note (.soughtFunction name))

/-- The expression is a call; its arguments have values, and the second machine is where the body of
the function begins. -/
inductive Calls : Expr → Machine σ → Function → Machine σ → Prop
  | call {name : String} {args : List Expr} {m m₁ : Machine σ} {f : Function} {values : List Value}
      (hf : m.Admits name args.length f)
      (hargs : evaluateEach commands args (m.note (.soughtFunction name)) = (.ok values, m₁)) :
      Calls (.call name args) m f (setParameters f.params values (m₁.note (.called f)).push)

/-! ## Parts of statements -/

/-- Run from the first machine, the statement comes to evaluate the expression from the second one. -/
inductive StatementReaches : Statement → Machine σ → Expr → Machine σ → Prop
  | expression {place : Location} {inner e : Expr} {m m' : Machine σ}
      (h : Reaches commands inner (m.note (.interpreting (.expression place inner))) e m') :
      StatementReaches (.expression place inner) m e m'
  | argument {place : Location} {name : String} {before after : List Expr} {arg e : Expr}
      {m m₁ m' : Machine σ} {c : Command σ} {values : List Value}
      (hc : commands.find? name = some c)
      (hbefore : evaluateEach commands before
        (m.note (.interpreting (.command place name (before ++ arg :: after)))) = (.ok values, m₁))
      (h : Reaches commands arg m₁ e m') :
      StatementReaches (.command place name (before ++ arg :: after)) m e m'

/-- The statement raises the failure outside the bodies of functions. -/
inductive StatementRaises : Statement → Machine σ → Failure → Machine σ → Prop
  | unknown {place : Location} {name : String} {args : List Expr} {m : Machine σ}
      (hc : commands.find? name = none) :
      StatementRaises (.command place name args) m (.commandNotFound name)
        (m.note (.interpreting (.command place name args)))
  | command {place : Location} {name : String} {args : List Expr} {m m₁ m' : Machine σ}
      {c : Command σ} {values : List Value} {f : Failure} (hc : commands.find? name = some c)
      (hargs : evaluateEach commands args (m.note (.interpreting (.command place name args))) =
        (.ok values, m₁))
      (h : Action.invoke c values (m₁.note (.dispatched name values.length)) =
        (.error (.ofFailure f), m')) :
      StatementRaises (.command place name args) m f m'
  | within {s : Statement} {e : Expr} {m m₁ m' : Machine σ} {f : Failure}
      (hreaches : StatementReaches commands s m e m₁) (h : Raises commands e m₁ f m') :
      StatementRaises s m f m'

/-- Run from the first machine, the statement evaluates a call of the function, whose body begins at the
second machine. -/
def Enters (s : Statement) (m : Machine σ) (f : Function) (m' : Machine σ) : Prop :=
  ∃ e m₁, StatementReaches commands s m e m₁ ∧ Calls commands e m₁ f m'

/-! ## How expressions fail -/

/-- The expression itself ends with the error: it raises it, or calls a function whose body ends with
it. -/
inductive Breaks (e : Expr) (m : Machine σ) : RuntimeError → Prop
  | raises {f : Failure} {m' : Machine σ} (h : Raises commands e m f m') : Breaks e m (.ofFailure f)
  | called {f : Function} {m₁ m₂ : Machine σ} {error : RuntimeError} (h : Calls commands e m f m₁)
      (hbody : executeAll commands f.body m₁ = (.error error, m₂)) : Breaks e m error

variable {commands}

theorem Reaches.depth {e e' : Expr} {m m' : Machine σ} (h : Reaches commands e m e' m') :
    0 < m.depth → m'.depth = m.depth := by
  induction h with
  | here => exact fun _ => rfl
  | assigned _ ih | negated _ ih | left _ ih => exact ih
  | @right left right e op m m₁ m' l hleft _ ih =>
    intro hpos
    have hdepth := depth_of_evaluate hleft hpos
    exact (ih (hdepth.symm ▸ hpos)).trans hdepth
  | @argument name before after arg e m m₁ m' f values hf hbefore _ ih =>
    intro hpos
    have hdepth := depth_of_evaluateEach hbefore hpos
    exact (ih (hdepth.symm ▸ hpos)).trans hdepth

theorem Calls.depth {e : Expr} {m m' : Machine σ} {f : Function} (h : Calls commands e m f m')
    (hpos : 0 < m.depth) : m'.depth = m.depth + 1 := by
  obtain ⟨hf, hargs⟩ := h
  rename_i name args m₁ values
  have hdepth := depth_of_evaluateEach hargs hpos
  have hbody := (setParameters_moves f.params values (m₁.note (.called f)).push).keepsOuter
    (Nat.succ_pos _)
  exact hbody.depth.trans (congrArg (· + 1) hdepth)

theorem evaluate_of_raises {e : Expr} {m m' : Machine σ} {f : Failure} (hpos : 0 < m.depth)
    (h : Raises commands e m f m') : evaluate commands e m = (.error (.ofFailure f), m') := by
  cases h with
  | @negation e _ _ v he hv =>
    rw [evaluate_negate, Action.bind_of_ok he]
    cases v with
    | boolean b => exact absurd rfl hv
    | number _ | text _ | null => rfl
  | operation hleft hright h =>
    rw [evaluate_binary commands _ _ _ hpos, Action.bind_of_ok hleft, Action.bind_of_ok hright, h]
    rfl
  | unknown h =>
    rw [evaluate_call commands _ _ _ hpos, Action.bind_apply, Action.function?, h]
    rfl
  | tooFew hf h =>
    rw [evaluate_call commands _ _ _ hpos, Action.bind_apply, Action.function?, hf]
    dsimp only
    rw [if_pos h]
    rfl
  | tooMany hf h =>
    rw [evaluate_call commands _ _ _ hpos, Action.bind_apply, Action.function?, hf]
    dsimp only
    rw [if_neg (Nat.lt_asymm h), if_pos h]
    rfl
  | tooDeep hf harity h =>
    rw [evaluate_call commands _ _ _ hpos, Action.bind_apply, Action.function?, hf]
    dsimp only
    rw [if_neg (Nat.not_lt.mpr (Nat.le_of_eq harity)), if_neg (Nat.not_lt.mpr (Nat.le_of_eq harity.symm)), if_pos h]
    rfl

variable (commands) in
/-- A call raises a failure itself, or it has all that it needs. -/
theorem raises_or_admits (name : String) (args : List Expr) (m : Machine σ) :
    (∃ f, Raises commands (.call name args) m f (m.note (.soughtFunction name))) ∨
      ∃ f, m.Admits name args.length f := by
  cases hf : m.frames.function? name with
  | none => exact .inl ⟨_, .unknown hf⟩
  | some f =>
    rcases Nat.lt_trichotomy args.length f.arity with hfew | harity | hmany
    · exact .inl ⟨_, .tooFew hf hfew⟩
    · by_cases hdeep : maxCallDepth < m.depth
      · exact .inl ⟨_, .tooDeep hf harity.symm hdeep⟩
      · exact .inr ⟨f, hf, harity.symm, Nat.not_lt.mp hdeep⟩
    · exact .inl ⟨_, .tooMany hf hmany⟩

/-- A call with all it needs evaluates its arguments and enters the function. -/
theorem evaluate_call_of_admits {name : String} {args : List Expr} {m : Machine σ} {f : Function}
    (hpos : 0 < m.depth) (h : m.Admits name args.length f) :
    evaluate commands (.call name args) m =
      (do
        let values ← evaluateEach commands args
        enter commands f values
        pure .null : Action σ Value) (m.note (.soughtFunction name)) := by
  obtain ⟨hf, harity, hroom⟩ := h
  rw [evaluate_call commands _ _ _ hpos, Action.bind_apply, Action.function?, hf]
  dsimp only
  rw [if_neg (Nat.not_lt.mpr (Nat.le_of_eq harity)), if_neg (Nat.not_lt.mpr (Nat.le_of_eq harity.symm)),
    if_neg (Nat.not_lt.mpr hroom)]

theorem evaluate_of_calls {e : Expr} {m m₁ m₂ : Machine σ} {f : Function} {error : RuntimeError}
    (hpos : 0 < m.depth) (h : Calls commands e m f m₁)
    (hbody : executeAll commands f.body m₁ = (.error error, m₂)) :
    evaluate commands e m = (.error error, m₂.pop) := by
  obtain ⟨hf, hargs⟩ := h
  rw [evaluate_call_of_admits hpos hf, Action.bind_of_ok hargs, Action.bind_apply, enter]
  simp only [Action.bind_apply, Action.change, Action.inNewFrame, hbody]

theorem evaluateEach_of_error {before after : List Expr} {arg : Expr} {m m₁ m' : Machine σ}
    {values : List Value} {error : RuntimeError} (hpos : 0 < m.depth)
    (hbefore : evaluateEach commands before m = (.ok values, m₁))
    (harg : evaluate commands arg m₁ = (.error error, m')) :
    evaluateEach commands (before ++ arg :: after) m = (.error error, m') := by
  induction before generalizing m values with
  | nil =>
    rw [evaluateEach_nil] at hbefore
    cases hbefore
    rw [List.nil_append, evaluateEach_cons commands _ _ hpos]
    exact Action.bind_eq_error_iff.mpr (.inl harg)
  | cons e before ih =>
    obtain ⟨v, m₂, rest, he, hrest, rfl⟩ := (evaluateEach_cons_eq_ok_iff commands hpos).mp hbefore
    have hdepth := depth_of_evaluate he hpos
    rw [List.cons_append, evaluateEach_cons commands _ _ hpos, Action.bind_of_ok he]
    exact Action.bind_eq_error_iff.mpr (.inl (ih (hdepth.symm ▸ hpos) hrest))

/-- An error in a part is an error of the whole. -/
theorem Reaches.evaluate_of_error {e e' : Expr} {m m' m₁ : Machine σ} {error : RuntimeError}
    (h : Reaches commands e m e' m') (herror : evaluate commands e' m' = (.error error, m₁)) :
    0 < m.depth → ∃ m₂, evaluate commands e m = (.error error, m₂) := by
  induction h with
  | here => exact fun _ => ⟨m₁, herror⟩
  | assigned _ ih =>
    intro hpos
    obtain ⟨m₂, hpart⟩ := ih herror hpos
    rw [evaluate_assign]
    exact ⟨m₂, Action.bind_eq_error_iff.mpr (.inl hpart)⟩
  | negated _ ih =>
    intro hpos
    obtain ⟨m₂, hpart⟩ := ih herror hpos
    rw [evaluate_negate]
    exact ⟨m₂, Action.bind_eq_error_iff.mpr (.inl hpart)⟩
  | left _ ih =>
    intro hpos
    obtain ⟨m₂, hpart⟩ := ih herror hpos
    rw [evaluate_binary commands _ _ _ hpos]
    exact ⟨m₂, Action.bind_eq_error_iff.mpr (.inl hpart)⟩
  | @right left right e op m m₁ m' l hleft _ ih =>
    intro hpos
    have hdepth := depth_of_evaluate hleft hpos
    obtain ⟨m₂, hpart⟩ := ih herror (hdepth.symm ▸ hpos)
    rw [evaluate_binary commands _ _ _ hpos, Action.bind_of_ok hleft]
    exact ⟨m₂, Action.bind_eq_error_iff.mpr (.inl hpart)⟩
  | @argument name before after arg e m m₁ m' f values hf hbefore _ ih =>
    intro hpos
    have hdepth := depth_of_evaluateEach hbefore hpos
    obtain ⟨m₂, hpart⟩ := ih herror (hdepth.symm ▸ hpos)
    rw [evaluate_call_of_admits hpos hf]
    have hargs : evaluateEach commands (before ++ arg :: after) (m.note (.soughtFunction name)) =
      (.error error, m₂) := evaluateEach_of_error hpos hbefore hpart
    exact ⟨m₂, Action.bind_eq_error_iff.mpr (.inl hargs)⟩

theorem Breaks.evaluate {e : Expr} {m : Machine σ} {error : RuntimeError} (hpos : 0 < m.depth)
    (h : Breaks commands e m error) : ∃ m', evaluate commands e m = (.error error, m') := by
  cases h with
  | raises h => exact ⟨_, evaluate_of_raises hpos h⟩
  | called h hbody => exact ⟨_, evaluate_of_calls hpos h hbody⟩

mutual

/-- An error of an expression is one with which some part of it itself ends. -/
theorem exists_breaks : ∀ (e : Expr) {m m' : Machine σ} {error : RuntimeError}, 0 < m.depth →
    evaluate commands e m = (.error error, m') →
      ∃ e' m₁, Reaches commands e m e' m₁ ∧ Breaks commands e' m₁ error
  | .literal value, m, m', error, _, h => by
    rw [evaluate, Expr.evaluate] at h
    exact nomatch congrArg Prod.fst h
  | .variable name, m, m', error, _, h => by
    rw [evaluate, Expr.evaluate] at h
    exact nomatch congrArg Prod.fst h
  | .assign name value, m, m', error, hpos, h => by
    rw [evaluate_assign] at h
    rcases Action.bind_eq_error_iff.mp h with hvalue | ⟨v, m₁, -, hset⟩
    · obtain ⟨e', m₁, hreaches, hbreaks⟩ := exists_breaks value hpos hvalue
      exact ⟨e', m₁, .assigned hreaches, hbreaks⟩
    · exact nomatch congrArg Prod.fst hset
  | .negate e, m, m', error, hpos, h => by
    rw [evaluate_negate] at h
    rcases Action.bind_eq_error_iff.mp h with he | ⟨v, m₁, he, hv⟩
    · obtain ⟨e', m₁, hreaches, hbreaks⟩ := exists_breaks e hpos he
      exact ⟨e', m₁, .negated hreaches, hbreaks⟩
    · cases v with
      | boolean b => exact nomatch congrArg Prod.fst hv
      | number _ | text _ | null =>
        cases hv
        exact ⟨_, _, .here _ _, .raises (.negation he nofun)⟩
  | .binary left op right, m, m', error, hpos, h => by
    rw [evaluate_binary commands _ _ _ hpos] at h
    rcases Action.bind_eq_error_iff.mp h with hleft | ⟨l, m₁, hleft, h⟩
    · obtain ⟨e', m₁, hreaches, hbreaks⟩ := exists_breaks left hpos hleft
      exact ⟨e', m₁, .left hreaches, hbreaks⟩
    have hdepth := depth_of_evaluate hleft hpos
    rcases Action.bind_eq_error_iff.mp h with hright | ⟨r, m₂, hright, h⟩
    · obtain ⟨e', m₂, hreaches, hbreaks⟩ := exists_breaks right (hdepth.symm ▸ hpos) hright
      exact ⟨e', m₂, .right hleft hreaches, hbreaks⟩
    cases hop : op.apply l r with
    | ok v =>
      rw [hop] at h
      exact nomatch congrArg Prod.fst h
    | error f =>
      rw [hop] at h
      cases h
      exact ⟨_, _, .here _ _, .raises (.operation hleft hright hop)⟩
  | .call name args, m, m', error, hpos, h => by
    rcases raises_or_admits commands name args m with ⟨f, hraises⟩ | ⟨f, hadmits⟩
    · have hraised := (evaluate_of_raises hpos hraises).symm.trans h
      obtain rfl : .ofFailure f = error := Except.error.inj (congrArg Prod.fst hraised)
      exact ⟨_, _, .here _ _, .raises hraises⟩
    rw [evaluate_call_of_admits hpos hadmits] at h
    rcases Action.bind_eq_error_iff.mp h with hargs | ⟨values, m₁, hargs, h⟩
    · obtain ⟨before, arg, after, values, m₁, e', m₂, rfl, hbefore, hreaches, hbreaks⟩ :=
        exists_breaks_argument args (m := m.note (.soughtFunction name)) hpos hargs
      exact ⟨e', m₂, .argument hadmits hbefore hreaches, hbreaks⟩
    · rcases Action.bind_eq_error_iff.mp h with henter | ⟨_, m₂, -, h⟩
      · simp only [enter, Action.bind_apply, Action.change, Action.inNewFrame] at henter
        generalize hbody : executeAll commands f.body _ = r at henter
        obtain ⟨r, m₂⟩ := r
        obtain rfl : r = .error error := congrArg Prod.fst henter
        exact ⟨_, _, .here _ _, .called (.call hadmits hargs) hbody⟩
      · exact nomatch congrArg Prod.fst h

theorem exists_breaks_argument : ∀ (es : List Expr) {m m' : Machine σ} {error : RuntimeError},
    0 < m.depth → evaluateEach commands es m = (.error error, m') →
      ∃ before arg after values m₁ e' m₂, es = before ++ arg :: after ∧
        evaluateEach commands before m = (.ok values, m₁) ∧ Reaches commands arg m₁ e' m₂ ∧
          Breaks commands e' m₂ error
  | [], m, m', error, _, h => by
    rw [evaluateEach_nil] at h
    exact nomatch congrArg Prod.fst h
  | e :: es, m, m', error, hpos, h => by
    rw [evaluateEach_cons commands _ _ hpos] at h
    rcases Action.bind_eq_error_iff.mp h with he | ⟨v, m₁, he, h⟩
    · obtain ⟨e', m₁, hreaches, hbreaks⟩ := exists_breaks e hpos he
      exact ⟨[], e, es, [], m, e', m₁, rfl, evaluateEach_nil commands m, hreaches, hbreaks⟩
    have hdepth := depth_of_evaluate he hpos
    rcases Action.bind_eq_error_iff.mp h with hes | ⟨vs, m₂, -, hpure⟩
    · obtain ⟨before, arg, after, values, m₂, e', m₃, rfl, hbefore, hreaches, hbreaks⟩ :=
        exists_breaks_argument es (hdepth.symm ▸ hpos) hes
      have hfirst : evaluateEach commands (e :: before) m = (.ok (v :: values), m₂) :=
        (evaluateEach_cons_eq_ok_iff commands hpos).mpr ⟨v, m₁, values, he, hbefore, rfl⟩
      exact ⟨e :: before, arg, after, v :: values, m₂, e', m₃, rfl, hfirst, hreaches, hbreaks⟩
    · exact nomatch congrArg Prod.fst hpure

end

/-! ## How statements fail -/

theorem exists_failure_of_invoke {c : Command σ} {values : List Value} {m m' : Machine σ}
    {error : RuntimeError} (h : Action.invoke c values m = (.error error, m')) :
    ∃ f, error = .ofFailure f := by
  have herror := congrArg Prod.fst h
  unfold Action.invoke at herror
  cases hbind : c.bind values with
  | error f =>
    rw [hbind] at herror
    exact ⟨f, (Except.error.inj herror).symm⟩
  | ok args =>
    rw [hbind] at herror
    change (c.perform args m.host).1.mapError RuntimeError.ofFailure = .error error at herror
    cases hr : (c.perform args m.host).1 with
    | error f =>
      rw [hr] at herror
      exact ⟨f, (Except.error.inj herror).symm⟩
    | ok _ =>
      rw [hr] at herror
      exact nomatch herror

theorem StatementReaches.depth {s : Statement} {e : Expr} {m m' : Machine σ}
    (h : StatementReaches commands s m e m') (hpos : 0 < m.depth) : m'.depth = m.depth := by
  cases h with
  | expression h => exact h.depth hpos
  | @argument place name before after arg _ _ m₁ _ c values hc hbefore h =>
    have hdepth := depth_of_evaluateEach hbefore hpos
    exact (h.depth (hdepth.symm ▸ hpos)).trans hdepth

theorem Enters.depth {s : Statement} {m m' : Machine σ} {f : Function}
    (h : Enters commands s m f m') (hpos : 0 < m.depth) : m'.depth = m.depth + 1 := by
  obtain ⟨e, m₁, hreaches, hcalls⟩ := h
  have hdepth := hreaches.depth hpos
  rw [hcalls.depth (hdepth.symm ▸ hpos), hdepth]

theorem StatementReaches.execute_of_error {s : Statement} {e : Expr} {m m₁ m₂ : Machine σ}
    {error : RuntimeError} (hpos : 0 < m.depth) (h : StatementReaches commands s m e m₁)
    (herror : evaluate commands e m₁ = (.error error, m₂)) :
    ∃ m', execute commands s m = (.error error, m') := by
  cases h with
  | expression h =>
    obtain ⟨m', hpart⟩ := h.evaluate_of_error herror hpos
    rw [execute_expression]
    exact ⟨m', Action.bind_eq_error_iff.mpr (.inl hpart)⟩
  | @argument place name before after arg _ _ m₃ _ c values hc hbefore h =>
    have hdepth := depth_of_evaluateEach hbefore hpos
    obtain ⟨m', hpart⟩ := h.evaluate_of_error herror (hdepth.symm ▸ hpos)
    rw [execute_command, hc]
    exact ⟨m', Action.bind_eq_error_iff.mpr (.inl (evaluateEach_of_error hpos hbefore hpart))⟩

theorem StatementRaises.execute {s : Statement} {m m' : Machine σ} {f : Failure}
    (hpos : 0 < m.depth) (h : StatementRaises commands s m f m') :
    ∃ m₁, execute commands s m = (.error (.ofFailure f), m₁) := by
  cases h with
  | unknown hc =>
    rw [execute_command, hc]
    exact ⟨_, rfl⟩
  | command hc hargs h =>
    rw [execute_command, hc]
    exact ⟨m', (Action.bind_of_ok hargs).trans h⟩
  | within hreaches h =>
    have hdepth := hreaches.depth hpos
    exact hreaches.execute_of_error hpos (evaluate_of_raises (hdepth.symm ▸ hpos) h)

theorem Enters.execute {s : Statement} {m m₁ m₂ : Machine σ} {f : Function} {error : RuntimeError}
    (hpos : 0 < m.depth) (h : Enters commands s m f m₁)
    (hbody : executeAll commands f.body m₁ = (.error error, m₂)) :
    ∃ m', execute commands s m = (.error error, m') := by
  obtain ⟨e, m₃, hreaches, hcalls⟩ := h
  have hdepth := hreaches.depth hpos
  exact hreaches.execute_of_error hpos (evaluate_of_calls (hdepth.symm ▸ hpos) hcalls hbody)

/-- A statement fails by itself, or in the body of a function that it calls. -/
theorem raises_or_enters {s : Statement} {m m' : Machine σ} {error : RuntimeError}
    (hpos : 0 < m.depth) (h : execute commands s m = (.error error, m')) :
    (∃ f there, error = .ofFailure f ∧ StatementRaises commands s m f there) ∨
      ∃ f m₁ m₂, Enters commands s m f m₁ ∧ executeAll commands f.body m₁ = (.error error, m₂) := by
  have hpart {e : Expr} {m₁ : Machine σ} (hreaches : StatementReaches commands s m e m₁)
      (hbreaks : Breaks commands e m₁ error) :
      (∃ f there, error = .ofFailure f ∧ StatementRaises commands s m f there) ∨
        ∃ f m₁ m₂, Enters commands s m f m₁ ∧
          executeAll commands f.body m₁ = (.error error, m₂) := by
    cases hbreaks with
    | raises hraises => exact .inl ⟨_, _, rfl, .within hreaches hraises⟩
    | called hcalls hbody => exact .inr ⟨_, _, _, ⟨_, _, hreaches, hcalls⟩, hbody⟩
  cases s with
  | command place name args =>
    rw [execute_command] at h
    cases hc : commands.find? name with
    | none =>
      rw [hc] at h
      cases h
      exact .inl ⟨_, _, rfl, .unknown hc⟩
    | some c =>
      rw [hc] at h
      rcases Action.bind_eq_error_iff.mp h with hargs | ⟨values, m₁, hargs, h⟩
      · obtain ⟨before, arg, after, values, m₁, e, m₂, rfl, hbefore, hreaches, hbreaks⟩ :=
          exists_breaks_argument args (m := m.note _) hpos hargs
        exact hpart (.argument hc hbefore hreaches) hbreaks
      · obtain ⟨f, rfl⟩ := exists_failure_of_invoke h
        exact .inl ⟨f, m', rfl, .command hc hargs h⟩
  | expression place e =>
    rw [execute_expression] at h
    rcases Action.bind_eq_error_iff.mp h with he | ⟨v, m₁, -, hpure⟩
    · obtain ⟨e', m₁, hreaches, hbreaks⟩ := exists_breaks e (m := m.note _) hpos he
      exact hpart (.expression hreaches) hbreaks
    · cases congrArg Prod.fst hpure
  | declaration place name params body =>
    rw [Machine.execute, Statement.execute] at h
    cases congrArg Prod.fst h

/-! ## How scripts fail -/

/-- Statements fail where the first of them does, and the error learns its line. -/
theorem executeAll_eq_error_iff {ss : List Statement} {m m' : Machine σ} {error : RuntimeError}
    (hpos : 0 < m.depth) : executeAll commands ss m = (.error error, m') ↔
      ∃ before s after m₁ inner, ss = before ++ s :: after ∧
        executeAll commands before m = (.ok (), m₁) ∧
        Machine.execute commands s m₁ = (.error inner, m') ∧ error = inner.atLine s.place.line := by
  constructor
  · intro h
    induction ss generalizing m with
    | nil =>
      rw [executeAll_nil commands hpos] at h
      exact nomatch congrArg Prod.fst h
    | cons s ss ih =>
      rw [executeAll_cons commands s ss hpos] at h
      rcases hs : Machine.execute commands s m with ⟨inner | _, m₁⟩
      · rw [hs] at h
        cases h
        exact ⟨[], s, ss, m, inner, rfl, executeAll_nil commands hpos, hs, rfl⟩
      · have hdepth := depth_of_execute hs hpos
        rw [hs] at h
        obtain ⟨before, s', after, m₂, inner, rfl, hbefore, hs', rfl⟩ := ih (hdepth.symm ▸ hpos) h
        refine ⟨s :: before, s', after, m₂, inner, rfl, ?_, hs', rfl⟩
        rw [executeAll_cons commands _ _ hpos, hs]
        exact hbefore
  · rintro ⟨before, s, after, m₁, inner, rfl, hbefore, hs, rfl⟩
    have hdepth := depth_of_executeAll hbefore hpos
    rw [executeAll_append, Action.bind_of_ok hbefore,
      executeAll_cons commands _ _ (hdepth.symm ▸ hpos), hs]

theorem Enters.room {s : Statement} {m m' : Machine σ} {f : Function}
    (h : Enters commands s m f m') (hpos : 0 < m.depth) : m.depth ≤ maxCallDepth := by
  obtain ⟨e, m₁, hreaches, hcalls⟩ := h
  rw [← hreaches.depth hpos]
  obtain ⟨hadmits, -⟩ := hcalls
  exact hadmits.room

/-! ## The depth of a failure -/

theorem Raises.depth {e : Expr} {m m' : Machine σ} {f : Failure} (h : Raises commands e m f m')
    (hpos : 0 < m.depth) : m'.depth = m.depth := by
  exact depth_of_evaluate (evaluate_of_raises hpos h) hpos

theorem StatementRaises.depth {s : Statement} {m m' : Machine σ} {f : Failure}
    (h : StatementRaises commands s m f m') (hpos : 0 < m.depth) : m'.depth = m.depth := by
  cases h with
  | unknown hc => rfl
  | @command place name args _ m₁ _ c values f hc hargs h =>
    have hdepth := depth_execute commands (.command place name args) hpos
    have hs : Machine.execute commands (.command place name args) m =
        (.error (.ofFailure f), m') := by
      rw [execute_command, hc]
      exact (Action.bind_of_ok hargs).trans h
    rwa [hs] at hdepth
  | within hreaches h =>
    have hdepth := hreaches.depth hpos
    exact (h.depth (hdepth.symm ▸ hpos)).trans hdepth

theorem ne_callTooDeep_of_apply {op : Operator} {l r : Value} {f : Failure}
    (h : op.apply l r = .error f) (name : String) : f ≠ .callTooDeep name := by
  rintro rfl
  unfold Operator.apply at h
  split at h
  · exact nomatch h
  · rename_i s x
    cases hs : repeated s x with
    | ok t =>
      rw [hs] at h
      exact nomatch h
    | error f =>
      rw [hs] at h
      obtain rfl := Except.error.inj h
      exact nomatch repeatTooLarge_of_repeated hs
  · exact nomatch h
  · exact nomatch h
  · exact nomatch h

theorem ne_callTooDeep_of_invoke {c : Command σ} {values : List Value} {m m' : Machine σ}
    {f : Failure} (h : Action.invoke c values m = (.error (.ofFailure f), m')) (name : String) :
    f ≠ .callTooDeep name := by
  rintro rfl
  have herror := congrArg Prod.fst h
  unfold Action.invoke at herror
  cases hbind : c.bind values with
  | error f =>
    rw [hbind] at herror
    obtain rfl : f = .callTooDeep name := congrArg RuntimeError.failure (Except.error.inj herror)
    exact nomatch (c.bind_eq_error_iff values _).mp hbind
  | ok args =>
    rw [hbind] at herror
    change (c.perform args m.host).1.mapError RuntimeError.ofFailure = _ at herror
    unfold Command.perform at herror
    split at herror
    · exact nomatch herror
    · exact nomatch congrArg RuntimeError.failure (Except.error.inj herror)

/-- A call is too deep on a stack that is deeper than the limit, and nowhere else. -/
theorem StatementRaises.deep {s : Statement} {m m' : Machine σ} {name : String}
    (h : StatementRaises commands s m (.callTooDeep name) m') : maxCallDepth < m'.depth := by
  cases h with
  | command hc hargs h => exact absurd rfl (ne_callTooDeep_of_invoke h name)
  | within hreaches h =>
    cases h with
    | operation hleft hright h => exact absurd rfl (ne_callTooDeep_of_apply h name)
    | tooDeep hf harity h => exact h

end Machine

end CommandScript
