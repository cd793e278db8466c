import CommandScript.Proofs.Machine.Invocations
import CommandScript.Proofs.Machine.Moves
import CommandScript.Proofs.Session.Reading

/-!
Two machines side by side. Code looks at the frames of a machine only; its host and its journal are for the
commands. So on two machines with the same frames all code ends alike, if the commands of both do. The main
statement is that sessions on such machines give the same answer to a source, and stay alike.
-/

namespace CommandScript
set_option autoImplicit false

variable {σ τ α β : Type} {R : Machine σ → Machine τ → Prop}

/-! ## Machines -/

/-- Related machines have the same frames, and they stay related when the same is done to the frames of both
and when the same is told to both journals, unless that is the run of a command. -/
structure Machine.Likeness (R : Machine σ → Machine τ → Prop) : Prop where
  frames {m : Machine σ} {m' : Machine τ} : R m m' → m'.frames = m.frames
  withFrames {m : Machine σ} {m' : Machine τ} (s : FrameStack) :
    R m m' → R { m with frames := s } { m' with frames := s }
  note {m : Machine σ} {m' : Machine τ} {e : Event} (he : e.invocation? = none) :
    R m m' → R (m.note e) (m'.note e)

namespace Machine.Likeness

variable {m : Machine σ} {m' : Machine τ} (hR : Likeness R) (h : R m m')

include hR h

theorem depth : m'.depth = m.depth := congrArg FrameStack.depth (hR.frames h)

theorem push : R m.push m'.push := by
  unfold Machine.push
  rw [hR.frames h, hR.depth h]
  exact hR.note rfl (hR.withFrames _ h)

theorem pop : R m.pop m'.pop := by
  unfold Machine.pop
  rw [hR.frames h, hR.depth h]
  exact hR.note rfl (hR.withFrames _ h)

theorem ensureRoot : R m.ensureRoot m'.ensureRoot := by
  unfold Machine.ensureRoot
  rw [hR.frames h]
  cases m.frames.frames with
  | nil => exact hR.push h
  | cons f fs => exact h

theorem set (name : String) (v : Value) : R (m.set name v) (m'.set name v) := by
  have hroot := hR.ensureRoot (hR.note (e := .set name v) rfl h)
  unfold Machine.set
  dsimp only
  rw [hR.frames hroot]
  exact hR.withFrames _ hroot

theorem declare (f : Function) : R (m.declare f) (m'.declare f) := by
  have hroot := hR.ensureRoot (hR.note (e := .declared f) rfl h)
  unfold Machine.declare
  dsimp only
  rw [hR.frames hroot]
  exact hR.withFrames _ hroot

theorem setParameters (params : List Parameter) (values : List Value) :
    R (CommandScript.setParameters params values m) (CommandScript.setParameters params values m') := by
  unfold CommandScript.setParameters
  induction params.zip values generalizing m m' with
  | nil => exact h
  | cons pv pvs ih => exact ih (hR.set h pv.1.name pv.2)

end Machine.Likeness

/-! ## Actions -/

namespace Action

/-- On related machines both actions end with the same answer, and leave related machines. -/
def EndAlike (R : Machine σ → Machine τ → Prop) (act : Action σ α) (act' : Action τ α) : Prop :=
  ∀ m m', R m m' → (act' m').1 = (act m).1 ∧ R (act m).2 (act' m').2

theorem alike_pure (a : α) : EndAlike R (pure a) (pure a) := fun _ _ h => ⟨rfl, h⟩

theorem alike_fail (f : Failure) : EndAlike R (fail f : Action σ α) (fail f) := fun _ _ h => ⟨rfl, h⟩

theorem alike_ofExcept (r : Except Failure α) : EndAlike R (ofExcept r) (ofExcept r) :=
  fun _ _ h => ⟨rfl, h⟩

theorem alike_bind {act : Action σ α} {act' : Action τ α} {next : α → Action σ β}
    {next' : α → Action τ β} (h : EndAlike R act act') (hnext : ∀ a, EndAlike R (next a) (next' a)) :
    EndAlike R (act >>= next) (act' >>= next') := by
  intro m m' hm
  obtain ⟨hanswer, hrelated⟩ := h m m' hm
  rw [bind_apply, bind_apply]
  rcases hact : act m with ⟨e | a, m₁⟩
  all_goals
    rcases hact' : act' m' with ⟨r, m₁'⟩
    rw [hact, hact'] at hanswer hrelated
    obtain rfl : r = _ := hanswer
  · exact ⟨rfl, hrelated⟩
  · exact hnext a m₁ m₁' hrelated

variable (hR : Machine.Likeness R)

include hR

theorem alike_note {e : Event} (he : e.invocation? = none) :
    EndAlike R (change (Machine.note e)) (change (Machine.note e)) :=
  fun _ _ h => ⟨rfl, hR.note he h⟩

theorem alike_get (name : String) : EndAlike R (get name) (get name) := by
  intro m m' h
  refine ⟨?_, hR.note rfl h⟩
  unfold get
  rw [hR.frames h]

theorem alike_function? (name : String) : EndAlike R (function? name) (function? name) := by
  intro m m' h
  refine ⟨?_, hR.note rfl h⟩
  unfold function?
  rw [hR.frames h]

theorem alike_inNewFrame {act : Action σ α} {act' : Action τ α} (h : EndAlike R act act') :
    EndAlike R (inNewFrame act) (inNewFrame act') := by
  intro m m' hm
  obtain ⟨hanswer, hrelated⟩ := h m.push m'.push (hR.push hm)
  exact ⟨hanswer, hR.pop hrelated⟩

end Action

/-! ## Expressions -/

open CommandScript.Action

/-- Functions are entered on both machines, or on neither. -/
inductive EntersLike (R : Machine σ → Machine τ → Prop) :
    Option (Entry σ) → Option (Entry τ) → Prop where
  | none : EntersLike R none none
  | some {enter : Entry σ} {enter' : Entry τ} :
      (∀ f values, EndAlike R (enter f values) (enter' f values)) →
        EntersLike R (some enter) (some enter')

section

variable {entry : Option (Entry σ)} {entry' : Option (Entry τ)}

mutual

theorem Expr.evaluate_alike (hR : Machine.Likeness R) (hentry : EntersLike R entry entry') :
    ∀ e : Expr, EndAlike R (e.evaluate entry) (e.evaluate entry')
  | .literal value => by
    rw [evaluate, evaluate]
    exact alike_pure _
  | .variable name => by
    rw [evaluate, evaluate]
    exact alike_get hR name
  | .assign name value => by
    have hvalue := evaluate_alike hR hentry value
    rw [evaluate, evaluate]
    refine alike_bind hvalue fun v => ?_
    exact alike_bind (fun _ _ h => ⟨rfl, hR.set h name v⟩) fun _ => alike_pure v
  | .negate e => by
    have he := evaluate_alike hR hentry e
    rw [evaluate, evaluate]
    refine alike_bind he fun v => ?_
    cases v with
    | boolean b => exact alike_pure _
    | number _ | text _ | null => exact alike_fail _
  | .binary left op right => by
    have hleft := evaluate_alike hR hentry left
    have hright := evaluate_alike hR hentry right
    rw [evaluate, evaluate]
    refine alike_bind hleft fun l => alike_bind hright fun r => ?_
    exact alike_ofExcept _
  | .call name args => by
    have hargs := evaluateAll_alike hR hentry args
    rw [evaluate, evaluate]
    refine alike_bind (alike_function? hR name) fun found => ?_
    cases found with
    | none => exact alike_fail _
    | some f =>
      dsimp only
      split
      · exact alike_fail _
      split
      · exact alike_fail _
      cases hentry with
      | none => exact alike_fail _
      | some henter =>
        refine alike_bind hargs fun values => ?_
        exact alike_bind (henter f values) fun _ => alike_pure _

theorem Expr.evaluateAll_alike (hR : Machine.Likeness R) (hentry : EntersLike R entry entry') :
    ∀ es : List Expr, EndAlike R (evaluateAll entry es) (evaluateAll entry' es)
  | [] => by
    rw [evaluateAll, evaluateAll]
    exact alike_pure _
  | e :: es => by
    have he := Expr.evaluate_alike hR hentry e
    have hes := evaluateAll_alike hR hentry es
    rw [evaluateAll, evaluateAll]
    refine alike_bind he fun v => alike_bind hes fun vs => ?_
    exact alike_pure _

end

end

/-! ## Statements -/

/-- A name finds a command in both registries, or in neither, and what it finds runs alike. -/
inductive CommandsLike (R : Machine σ → Machine τ → Prop) :
    Option (Command σ) → Option (Command τ) → Prop where
  | none : CommandsLike R none none
  | some {c : Command σ} {c' : Command τ} :
      (∀ values, EndAlike R (invoke c values) (invoke c' values)) →
        CommandsLike R (some c) (some c')

section

variable (hR : Machine.Likeness R) {commands : Registry σ} {commands' : Registry τ}
  (hcommands : ∀ name, CommandsLike R (commands.find? name) (commands'.find? name))

include hR hcommands

section

variable {entry : Option (Entry σ)} {entry' : Option (Entry τ)} (hentry : EntersLike R entry entry')

include hentry

theorem Statement.execute_alike (s : Statement) :
    EndAlike R (s.execute commands entry) (s.execute commands' entry') := by
  unfold execute
  refine alike_bind (alike_note hR rfl) fun _ => ?_
  cases s with
  | command place name args =>
    have hfound := hcommands name
    dsimp only
    generalize commands.find? name = found, commands'.find? name = found' at hfound
    cases hfound with
    | none => exact alike_fail _
    | some hinvoke =>
      refine alike_bind (Expr.evaluateAll_alike hR hentry args) fun values => ?_
      exact alike_bind (alike_note hR rfl) fun _ => hinvoke values
  | expression place e =>
    exact alike_bind (Expr.evaluate_alike hR hentry e) fun _ => alike_pure _
  | declaration place name params body => exact fun m m' h => ⟨rfl, hR.declare h _⟩

theorem Statement.executeEach_alike (ss : List Statement) :
    EndAlike R (executeEach commands entry ss) (executeEach commands' entry' ss) := by
  induction ss with
  | nil => exact fun _ _ h => ⟨rfl, h⟩
  | cons s ss ih =>
    intro m m' hm
    obtain ⟨hanswer, hrelated⟩ := execute_alike hR hcommands hentry s m m' hm
    rw [executeEach, executeEach]
    rcases hs : s.execute commands entry m with ⟨e | _, m₁⟩
    all_goals
      rcases hs' : s.execute commands' entry' m' with ⟨r, m₁'⟩
      rw [hs, hs'] at hanswer hrelated
      obtain rfl : r = _ := hanswer
    · exact ⟨rfl, hrelated⟩
    · exact ih m₁ m₁' hrelated

end

/-! ## Calls and runs -/

theorem entryWithin_alike (n : Nat) :
    EntersLike R (entryWithin commands n) (entryWithin commands' n) := by
  induction n with
  | zero => exact .none
  | succ n ih =>
    refine .some fun f values => ?_
    refine alike_bind (alike_note hR rfl) fun _ => ?_
    refine alike_inNewFrame hR ?_
    refine alike_bind (fun m m' h => ⟨rfl, hR.setParameters h f.params values⟩) fun _ => ?_
    exact Statement.executeEach_alike hR hcommands ih f.body

theorem Machine.executeAll_alike (ss : List Statement) :
    EndAlike R (executeAll commands ss) (executeAll commands' ss) := by
  intro m m' h
  have hroot := hR.ensureRoot h
  unfold executeAll entry
  rw [hR.depth hroot]
  exact Statement.executeEach_alike hR hcommands (entryWithin_alike hR hcommands _) ss _ _ hroot

end

/-! ## Sessions -/

theorem Session.read_alike (hR : Machine.Likeness R) {s : Session σ} {s' : Session τ}
    (h : R s.machine s'.machine) (source : String) :
    R (s.read source).2.machine (s'.read source).2.machine := by
  unfold read
  dsimp only
  have hlexed := hR.note (e := .lexed (lexemes source).length) rfl h
  cases Script.ofLexemes (lexemes source) with
  | error e => exact hlexed
  | ok script => exact hR.note rfl hlexed

/-- Sessions on related machines, with commands that run alike, give the same answer to a source. -/
theorem Session.feed_alike (hR : Machine.Likeness R) {s : Session σ} {s' : Session τ}
    (hcommands : ∀ name, CommandsLike R (s.commands.find? name) (s'.commands.find? name))
    (h : R s.machine s'.machine) (source : String) :
    (s'.feed source).1 = (s.feed source).1 ∧ R (s.feed source).2.machine (s'.feed source).2.machine := by
  have hread := read_alike hR h source
  unfold feed
  cases hparse : Script.parse source with
  | error e =>
    rw [readAnd_of_error _ hparse, readAnd_of_error _ hparse]
    exact ⟨rfl, hread⟩
  | ok script =>
    rw [readAnd_of_ok _ hparse, readAnd_of_ok _ hparse]
    obtain ⟨hanswer, hrelated⟩ := Machine.executeAll_alike hR hcommands script _ _ hread
    exact ⟨congrArg (Except.mapError ScriptError.runtime) hanswer, hrelated⟩

end CommandScript
