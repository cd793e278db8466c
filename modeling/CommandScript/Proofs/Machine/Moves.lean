import CommandScript.Machine.Evaluate

/-!
What running code does to a machine. Every evaluation is made of a few moves: something is told to
the journal, the host changes, a variable or a function is written in the innermost frame, or a new
frame is put on, moves are made in it, and it is taken off. What holds of all of these moves holds
of every evaluation; the main statements say that expressions and statements move a machine in no
other way.
-/

namespace CommandScript
set_option autoImplicit false

variable {σ α β : Type}

/-! ## Actions in a row -/

namespace Action

@[simp] theorem pure_apply (a : α) (m : Machine σ) : (pure a : Action σ α) m = (.ok a, m) := rfl

theorem bind_apply (act : Action σ α) (next : α → Action σ β) (m : Machine σ) :
    (act >>= next) m =
      match act m with
      | (.ok a, m') => next a m'
      | (.error e, m') => (.error e, m') := by
  change (ExceptT.bindCont next (act m).1) (act m).2 = _
  rcases act m with ⟨_ | a, m'⟩ <;> rfl

end Action

/-! ## Moves -/

namespace Machine

/-- How a machine is changed by code that writes only variables of `written` in the innermost frame,
and functions in it only if `declares` holds. Nothing restricts what is done in a new frame. -/
inductive Moves : (written : String → Prop) → (declares : Prop) → Machine σ → Machine σ → Prop where
  | stay {written declares} (m : Machine σ) : Moves written declares m m
  | note {written declares} (e : Event) (m : Machine σ) : Moves written declares m (m.note e)
  | host {written declares} (h : σ) (m : Machine σ) :
      Moves written declares m { m with host := h }
  | set {written : String → Prop} {declares} (name : String) (v : Value) (m : Machine σ) :
      written name → Moves written declares m (m.set name v)
  | declare {written} {declares : Prop} (f : Function) (m : Machine σ) :
      declares → Moves written declares m (m.declare f)
  | frame {written declares} {m m' : Machine σ} :
      Moves (fun _ => True) True m.push m' → Moves written declares m m'.pop
  | trans {written declares} {m m' m'' : Machine σ} :
      Moves written declares m m' → Moves written declares m' m'' → Moves written declares m m''

namespace Moves

variable {written written' : String → Prop} {declares declares' : Prop} {m m' : Machine σ}

theorem weaken (h : Moves written declares m m') (hw : ∀ name, written name → written' name)
    (hd : declares → declares') : Moves written' declares' m m' := by
  induction h with
  | stay m => exact .stay m
  | note e m => exact .note e m
  | host h m => exact .host h m
  | set name v m hname => exact .set name v m (hw name hname)
  | declare f m hdeclares => exact .declare f m (hd hdeclares)
  | frame h => exact .frame h
  | trans _ _ ih₁ ih₂ => exact .trans (ih₁ hw hd) (ih₂ hw hd)

end Moves

end Machine

/-! ## Actions that move -/

namespace Action

/-- Whether an action, however it ends, moves every machine like this. -/
def Moves (written : String → Prop) (declares : Prop) (act : Action σ α) : Prop :=
  ∀ m, Machine.Moves written declares m (act m).2

variable {written : String → Prop} {declares : Prop}

theorem moves_pure (a : α) : Moves written declares (pure a : Action σ α) :=
  fun m => .stay m

theorem moves_fail (f : Failure) : Moves written declares (fail f : Action σ α) :=
  fun m => .stay m

theorem moves_ofExcept (r : Except Failure α) : Moves written declares (ofExcept r : Action σ α) :=
  fun m => .stay m

theorem moves_get (name : String) : Moves written declares (get name : Action σ Value) :=
  fun m => .note _ m

theorem moves_function? (name : String) :
    Moves written declares (function? name : Action σ (Option Function)) :=
  fun m => .note _ m

theorem moves_note (e : Event) :
    Moves written declares (change (Machine.note e) : Action σ Unit) :=
  fun m => .note e m

theorem moves_bind {act : Action σ α} {next : α → Action σ β} (h : Moves written declares act)
    (hnext : ∀ a, Moves written declares (next a)) : Moves written declares (act >>= next) := by
  intro m
  have hm := h m
  rw [bind_apply]
  rcases hr : act m with ⟨e | a, m'⟩
  · rw [hr] at hm
    exact hm
  · rw [hr] at hm
    exact hm.trans (hnext a m')

theorem moves_invoke (c : Command σ) (values : List Value) :
    Moves written declares (invoke c values) := by
  intro m
  unfold invoke
  cases c.bind values with
  | error f => exact .stay m
  | ok args => exact .trans (.note (.invoked c.name args) m) (.host _ _)

theorem moves_inNewFrame {act : Action σ α} (h : Moves (fun _ => True) True act) :
    Moves written declares (inNewFrame act) :=
  fun m => .frame (h m.push)

end Action

/-! ## Expressions -/

namespace Expr

mutual

/-- The variables that an expression itself assigns. -/
def assigned : Expr → String → Prop
  | .literal _ => fun _ => False
  | .variable _ => fun _ => False
  | .assign name value => fun x => x = name ∨ value.assigned x
  | .negate e => e.assigned
  | .binary left _ right => fun x => left.assigned x ∨ right.assigned x
  | .call _ args => assignedByAny args

/-- The variables that some expression of a list assigns. -/
def assignedByAny : List Expr → String → Prop
  | [] => fun _ => False
  | e :: es => fun x => e.assigned x ∨ assignedByAny es x

end

/-- A way to enter functions that moves machines in new frames only. -/
def EntryMoves (entry : Option (Entry σ)) : Prop :=
  ∀ enter, entry = some enter → ∀ f values, Action.Moves (fun _ => False) False (enter f values)

mutual

/-- Evaluating an expression writes the variables that the expression assigns, and no function. -/
theorem evaluate_moves {entry : Option (Entry σ)} (hentry : EntryMoves entry) :
    ∀ e : Expr, Action.Moves e.assigned False (e.evaluate entry)
  | .literal value => by
    rw [evaluate]
    exact Action.moves_pure _
  | .variable name => by
    rw [evaluate]
    exact Action.moves_get name
  | .assign name value => by
    have hvalue := evaluate_moves hentry value
    rw [evaluate]
    refine Action.moves_bind (fun m => (hvalue m).weaken (fun x hx => .inr hx) id) fun v => ?_
    refine Action.moves_bind (fun m => .set name v m (.inl rfl)) fun _ => ?_
    exact Action.moves_pure v
  | .negate e => by
    have he := evaluate_moves hentry e
    rw [evaluate]
    refine Action.moves_bind he fun v => ?_
    cases v with
    | boolean b => exact Action.moves_pure _
    | number _ | text _ | null => exact Action.moves_fail _
  | .binary left op right => by
    have hleft := evaluate_moves hentry left
    have hright := evaluate_moves hentry right
    rw [evaluate]
    refine Action.moves_bind (fun m => (hleft m).weaken (fun x hx => .inl hx) id) fun l => ?_
    refine Action.moves_bind (fun m => (hright m).weaken (fun x hx => .inr hx) id) fun r => ?_
    exact Action.moves_ofExcept _
  | .call name args => by
    have hargs := evaluateAll_moves hentry args
    rw [evaluate]
    refine Action.moves_bind (Action.moves_function? name) fun found => ?_
    cases found with
    | none => exact Action.moves_fail _
    | some f =>
      dsimp only
      split
      · exact Action.moves_fail _
      split
      · exact Action.moves_fail _
      cases entry with
      | none => exact Action.moves_fail _
      | some enter =>
        refine Action.moves_bind hargs fun values => ?_
        refine Action.moves_bind (fun m => ?_) fun _ => Action.moves_pure _
        exact (hentry enter rfl f values m).weaken (fun _ h => h.elim) id

theorem evaluateAll_moves {entry : Option (Entry σ)} (hentry : EntryMoves entry) :
    ∀ es : List Expr, Action.Moves (assignedByAny es) False (evaluateAll entry es)
  | [] => by
    rw [evaluateAll]
    exact Action.moves_pure _
  | e :: es => by
    have he := evaluate_moves hentry e
    have hes := evaluateAll_moves hentry es
    rw [evaluateAll]
    refine Action.moves_bind (fun m => (he m).weaken (fun x hx => .inl hx) id) fun v => ?_
    refine Action.moves_bind (fun m => (hes m).weaken (fun x hx => .inr hx) id) fun vs => ?_
    exact Action.moves_pure _

end

end Expr

/-! ## Statements -/

namespace Statement

open CommandScript.Expr (EntryMoves)

variable (commands : Registry σ)

/-- Executing a statement may write every variable, and a function only if it is a declaration. -/
theorem execute_moves_declaring {entry : Option (Entry σ)} (hentry : EntryMoves entry)
    (s : Statement) :
    Action.Moves (fun _ => True) (∃ place name params body, s = .declaration place name params body)
      (s.execute commands entry) := by
  unfold execute
  refine Action.moves_bind (Action.moves_note _) fun _ => ?_
  cases s with
  | command place name args =>
    dsimp only
    cases commands.find? name with
    | none => exact Action.moves_fail _
    | some c =>
      refine Action.moves_bind (fun m => ?_) fun values => ?_
      · exact (Expr.evaluateAll_moves hentry args m).weaken (fun _ _ => trivial) False.elim
      · exact Action.moves_bind (Action.moves_note _) fun _ => Action.moves_invoke c values
  | expression place e =>
    refine Action.moves_bind (fun m => ?_) fun _ => Action.moves_pure _
    exact (Expr.evaluate_moves hentry e m).weaken (fun _ _ => trivial) False.elim
  | declaration place name params body => exact fun m => .declare _ m ⟨place, name, params, body, rfl⟩

theorem execute_moves {entry : Option (Entry σ)} (hentry : EntryMoves entry) (s : Statement) :
    Action.Moves (fun _ => True) True (s.execute commands entry) :=
  fun m => (execute_moves_declaring commands hentry s m).weaken (fun _ h => h) fun _ => trivial

theorem executeEach_moves {entry : Option (Entry σ)} (hentry : EntryMoves entry)
    (ss : List Statement) :
    Action.Moves (fun _ => True) True (executeEach commands entry ss) := by
  induction ss with
  | nil => exact fun m => .stay m
  | cons s ss ih =>
    intro m
    have hs := execute_moves commands hentry s m
    rw [executeEach]
    rcases hr : s.execute commands entry m with ⟨e | _, m'⟩
    · rw [hr] at hs
      exact hs
    · rw [hr] at hs
      exact hs.trans (ih m')

end Statement

/-! ## Calls and runs -/

theorem setParameters_moves (params : List Parameter) (values : List Value) (m : Machine σ) :
    Machine.Moves (fun _ => True) True m (setParameters params values m) := by
  unfold setParameters
  induction params.zip values generalizing m with
  | nil => exact .stay m
  | cons pv pvs ih => exact .trans (.set pv.1.name pv.2 m trivial) (ih _)

theorem entryWithin_moves (commands : Registry σ) (n : Nat) :
    Expr.EntryMoves (entryWithin commands n) := by
  induction n with
  | zero => exact fun enter h => nomatch h
  | succ n ih =>
    intro enter h f values
    obtain rfl := Option.some.inj h
    refine Action.moves_bind (Action.moves_note _) fun _ => ?_
    refine Action.moves_inNewFrame ?_
    refine Action.moves_bind (fun m => setParameters_moves f.params values m) fun _ => ?_
    exact Statement.executeEach_moves commands ih f.body

namespace Machine

variable (commands : Registry σ)

theorem evaluate_moves (e : Expr) : Action.Moves e.assigned False (evaluate commands e) :=
  fun m => Expr.evaluate_moves (entryWithin_moves commands _) e m

theorem execute_moves (s : Statement) :
    Action.Moves (fun _ => True) True (execute commands s) :=
  fun m => Statement.execute_moves commands (entryWithin_moves commands _) s m

theorem depth_ensureRoot_pos (m : Machine σ) : 0 < m.ensureRoot.depth := by
  obtain ⟨⟨_ | ⟨f, fs⟩⟩, host, journal⟩ := m
  · exact Nat.succ_pos _
  · exact Nat.succ_pos _

theorem ensureRoot_of_depth_pos {m : Machine σ} (h : 0 < m.depth) : m.ensureRoot = m := by
  obtain ⟨⟨_ | ⟨f, fs⟩⟩, host, journal⟩ := m
  · exact absurd h (Nat.lt_irrefl 0)
  · rfl

theorem executeAll_moves (ss : List Statement) {m : Machine σ} (h : 0 < m.depth) :
    Moves (fun _ => True) True m (executeAll commands ss m).2 := by
  unfold executeAll
  rw [ensureRoot_of_depth_pos h]
  exact Statement.executeEach_moves commands (entryWithin_moves commands _) ss m

end Machine

end CommandScript
