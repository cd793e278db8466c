import CommandScript.Proofs.Environment.Basic
import CommandScript.Proofs.Machine.StackDiscipline

/-!
Frames refine environments. What the names mean on a frame stack is an environment, and each move of
a machine is the like move of that environment: a frame that is put on adds nothing, and a frame
that is taken off gives the environment back that the caller had. The main statement is that
statements have the same result on a machine as in the environment of its stack, with the same
commands invoked, and leave a stack that amounts to the environment left there.
-/

namespace CommandScript
set_option autoImplicit false

variable {σ α β : Type}

/-! ## The environment of a stack -/

/-- What every name means on the stack. -/
def FrameStack.environment (s : FrameStack) : Environment :=
  ⟨fun name => s.get name, fun name => s.function? name⟩

namespace FrameStack

@[simp] theorem environment_push (s : FrameStack) : s.push.environment = s.environment := by
  simp [environment]

@[simp] theorem environment_set (s : FrameStack) (name : String) (v : Value) :
    (s.set name v).environment = s.environment.set name v := by
  simp [environment, Environment.set]

@[simp] theorem environment_declare (s : FrameStack) (f : Function) :
    (s.declare f).environment = s.environment.declare f := by
  simp [environment, Environment.declare]

end FrameStack

/-! ## Agreement -/

/-- A machine and a world that are in the same state: `past` are the invocations that the journal,
if there is one, told before the world began to count. -/
structure Shows (past : Option (List CommandCall)) (m : Machine σ) (w : World σ) : Prop where
  env : w.env = m.frames.environment
  host : w.host = m.host
  journal : m.journal.map invocations = past.map (w.invocations ++ ·)

/-- Both sides end with the same result and in the same state, at the depth given. -/
structure Agrees (past : Option (List CommandCall)) (depth : Nat)
    (r : Except RuntimeError α × Machine σ) (q : Except RuntimeError α × World σ) : Prop where
  result : r.1 = q.1
  shows : Shows past r.2 q.2
  depth : r.2.depth = depth

section

variable {past : Option (List CommandCall)} {depth : Nat} {m : Machine σ} {w : World σ}

theorem Shows.note (h : Shows past m w) {e : Event} (he : e.invocation? = none) :
    Shows past (m.note e) w :=
  ⟨h.env, h.host, (invocations_note he m).trans h.journal⟩

theorem Shows.push (h : Shows past m w) : Shows past m.push w := by
  refine ⟨?_, h.host, (invocations_note rfl _).trans h.journal⟩
  simpa using h.env

theorem Shows.set (h : Shows past m w) (name : String) (v : Value) :
    Shows past (m.set name v) { w with env := w.env.set name v } := by
  refine ⟨?_, ?_, ?_⟩
  · simp [h.env]
  · simpa using h.host
  · simpa using h.journal

theorem Shows.declare (h : Shows past m w) (f : Function) :
    Shows past (m.declare f) { w with env := w.env.declare f } := by
  refine ⟨?_, ?_, ?_⟩
  · simp [h.env]
  · simpa using h.host
  · simpa using h.journal

/-! ### Agreement in a row -/

theorem Agrees.done (h : Shows past m w) (hdepth : m.depth = depth) (r : Except RuntimeError α) :
    Agrees past depth (r, m) (r, w) :=
  ⟨rfl, h, hdepth⟩

theorem Agrees.bind {act : Action σ α} {next : α → Action σ β} {m : Machine σ}
    {q : Except RuntimeError α × World σ} {k : α → World σ → Except RuntimeError β × World σ}
    (h : Agrees past depth (act m) q)
    (hnext : ∀ a m' w', Shows past m' w' → m'.depth = depth →
      Agrees past depth (next a m') (k a w')) :
    Agrees past depth ((act >>= next) m) (World.andThen q k) := by
  rw [Action.bind_apply]
  rcases hr : act m with ⟨r, m'⟩
  obtain ⟨q, w'⟩ := q
  rw [hr] at h
  obtain rfl : r = q := h.result
  cases r with
  | error e => exact ⟨rfl, h.shows, h.depth⟩
  | ok a => exact hnext a m' w' h.shows h.depth

theorem Agrees.toNull {act : Action σ Unit} {m : Machine σ}
    {q : Except RuntimeError Unit × World σ} (h : Agrees past depth (act m) q) :
    Agrees past depth ((act >>= fun _ => pure Value.null) m) (q.1.map fun _ => Value.null, q.2) := by
  rw [Action.bind_apply]
  rcases hr : act m with ⟨r, m'⟩
  rw [hr] at h
  obtain ⟨q, w'⟩ := q
  obtain rfl : r = q := h.result
  cases r with
  | error e => exact ⟨rfl, h.shows, h.depth⟩
  | ok a => exact ⟨rfl, h.shows, h.depth⟩

end

/-! ## Expressions -/

section

variable (commands : Registry σ) (depth : Nat)

/-- A function is entered as the environment says: in a copy that knows the parameters. -/
def EntersAlike (enter : Entry σ) : Prop :=
  ∀ past f values m w, Shows past m w → m.depth = depth →
    Agrees past depth (enter f values m)
      (let inner := { w with env := w.env.bindParameters f.params values }
       let r := World.executeEach commands (depth + 1) f.body inner
       (r.1, { r.2 with env := w.env }))

/-- Functions can be entered at the same depths on both sides, and are entered alike. -/
def EntryAgrees (entry : Option (Entry σ)) : Prop :=
  (entry = none ↔ maxCallDepth < depth) ∧
    ∀ enter, entry = some enter → EntersAlike commands depth enter

variable {commands depth} {entry : Option (Entry σ)} {past : Option (List CommandCall)}

theorem depth_set (name : String) (v : Value) {m : Machine σ} (hpos : 0 < depth)
    (hd : m.depth = depth) : (m.set name v).depth = depth :=
  (Machine.keepsOuter_set name v (hd.symm ▸ hpos)).depth.trans hd

mutual

theorem Expr.evaluate_agrees (hpos : 0 < depth) (hentry : EntryAgrees commands depth entry) :
    ∀ (e : Expr) {m : Machine σ} {w : World σ}, Shows past m w → m.depth = depth →
      Agrees past depth (e.evaluate entry m) (World.evaluate commands depth e w)
  | .literal value, m, w, h, hd => by
    rw [evaluate, World.evaluate]
    exact Agrees.done h hd _
  | .variable name, m, w, h, hd => by
    rw [evaluate, World.evaluate, h.env]
    exact ⟨rfl, h.note rfl, hd⟩
  | .assign name value, m, w, h, hd => by
    rw [evaluate, World.evaluate]
    refine (evaluate_agrees hpos hentry value h hd).bind fun v m' w' h' hd' => ?_
    exact ⟨rfl, h'.set name v, depth_set name v hpos hd'⟩
  | .negate e, m, w, h, hd => by
    rw [evaluate, World.evaluate]
    refine (evaluate_agrees hpos hentry e h hd).bind fun v m' w' h' hd' => ?_
    cases v with
    | boolean b => exact Agrees.done h' hd' _
    | number _ | text _ | null => exact Agrees.done h' hd' _
  | .binary left op right, m, w, h, hd => by
    rw [evaluate, World.evaluate]
    refine (evaluate_agrees hpos hentry left h hd).bind fun l m' w' h' hd' => ?_
    refine (evaluate_agrees hpos hentry right h' hd').bind fun r m'' w'' h'' hd'' => ?_
    exact Agrees.done h'' hd'' _
  | .call name args, m, w, h, hd => by
    have hnoted := h.note (e := .soughtFunction name) rfl
    have hargs := evaluateAll_agrees hpos hentry args hnoted hd
    have hfound : w.env.functions name = m.frames.function? name := by
      rw [h.env]
      rfl
    rw [evaluate, World.evaluate, Action.bind_apply, hfound]
    dsimp only [Action.function?]
    cases m.frames.function? name with
    | none => exact Agrees.done hnoted hd _
    | some f =>
      dsimp only
      split
      · exact Agrees.done hnoted hd _
      split
      · exact Agrees.done hnoted hd _
      cases entry with
      | none =>
        rw [if_pos (hentry.1.mp rfl)]
        exact Agrees.done hnoted hd _
      | some enter =>
        have hroom : ¬maxCallDepth < depth := fun hdeep => nomatch hentry.1.mpr hdeep
        rw [if_neg hroom]
        refine hargs.bind fun values m' w' h' hd' => ?_
        have hcall := hentry.2 enter rfl past f values m' w' h' hd'
        exact hcall.toNull

theorem Expr.evaluateAll_agrees (hpos : 0 < depth) (hentry : EntryAgrees commands depth entry) :
    ∀ (es : List Expr) {m : Machine σ} {w : World σ}, Shows past m w → m.depth = depth →
      Agrees past depth (evaluateAll entry es m) (World.evaluateAll commands depth es w)
  | [], m, w, h, hd => by
    rw [evaluateAll, World.evaluateAll]
    exact Agrees.done h hd _
  | e :: es, m, w, h, hd => by
    rw [evaluateAll, World.evaluateAll]
    refine (Expr.evaluate_agrees hpos hentry e h hd).bind fun v m' w' h' hd' => ?_
    refine (evaluateAll_agrees hpos hentry es h' hd').bind fun vs m'' w'' h'' hd'' => ?_
    exact Agrees.done h'' hd'' _

end

/-! ## Statements -/

theorem World.invoke_agrees (c : Command σ) (values : List Value) {m : Machine σ} {w : World σ}
    (h : Shows past m w) (hd : m.depth = depth) :
    Agrees past depth (Action.invoke c values m) (w.invoke c values) := by
  unfold Action.invoke World.invoke
  cases c.bind values with
  | error f => exact Agrees.done h hd _
  | ok args =>
    dsimp only
    rw [h.host]
    refine ⟨rfl, ⟨h.env, rfl, ?_⟩, hd⟩
    refine (invocations_note_invoked c.name args m).trans ?_
    rw [h.journal, Option.map_map]
    rfl

theorem Statement.execute_agrees (hpos : 0 < depth) (hentry : EntryAgrees commands depth entry)
    (s : Statement) {m : Machine σ} {w : World σ} (h : Shows past m w) (hd : m.depth = depth) :
    Agrees past depth (s.execute commands entry m) (World.execute commands depth s w) := by
  have hnoted := h.note (e := .interpreting s) rfl
  unfold execute
  rw [Action.bind_apply]
  dsimp only [Action.change]
  cases s with
  | command place name args =>
    rw [World.execute]
    dsimp only
    cases commands.find? name with
    | none => exact Agrees.done hnoted hd _
    | some c =>
      refine (Expr.evaluateAll_agrees hpos hentry args hnoted hd).bind
        fun values m' w' h' hd' => ?_
      exact World.invoke_agrees c values (h'.note (e := .dispatched name values.length) rfl) hd'
  | expression place e =>
    rw [World.execute]
    refine (Expr.evaluate_agrees hpos hentry e hnoted hd).bind fun v m' w' h' hd' => ?_
    exact Agrees.done h' hd' _
  | declaration place name params body =>
    rw [World.execute]
    refine ⟨rfl, hnoted.declare ⟨name, params, body⟩, ?_⟩
    exact (Machine.keepsOuter_declare _ (hd.symm ▸ hpos)).depth.trans hd

theorem Statement.executeEach_agrees (hpos : 0 < depth)
    (hentry : EntryAgrees commands depth entry) (ss : List Statement) {m : Machine σ}
    {w : World σ} (h : Shows past m w) (hd : m.depth = depth) :
    Agrees past depth (executeEach commands entry ss m) (World.executeEach commands depth ss w) := by
  induction ss generalizing m w with
  | nil =>
    rw [executeEach, World.executeEach]
    exact Agrees.done h hd _
  | cons s ss ih =>
    have hs := s.execute_agrees hpos hentry h hd
    rw [executeEach, World.executeEach]
    generalize s.execute commands entry m = r at hs ⊢
    generalize World.execute commands depth s w = q at hs ⊢
    obtain ⟨r, m'⟩ := r
    obtain ⟨q, w'⟩ := q
    obtain rfl : r = q := hs.result
    cases r with
    | error e => exact ⟨rfl, hs.shows, hs.depth⟩
    | ok _ => exact ih hs.shows hs.depth

/-! ## Calls -/

theorem setParameters_shows (params : List Parameter) (values : List Value) {m : Machine σ}
    {w : World σ} (h : Shows past m w) :
    Shows past (setParameters params values m)
      { w with env := w.env.bindParameters params values } := by
  unfold setParameters Environment.bindParameters
  induction params.zip values generalizing m w with
  | nil => exact h
  | cons pv pvs ih => exact ih (h.set pv.1.name pv.2)

theorem setParameters_depth (hpos : 0 < depth) (params : List Parameter) (values : List Value)
    {m : Machine σ} (hd : m.depth = depth) : (setParameters params values m).depth = depth :=
  ((setParameters_moves params values m).keepsOuter (hd.symm ▸ hpos)).depth.trans hd

end

theorem entryWithin_agrees (commands : Registry σ) (n depth : Nat)
    (hn : n = maxCallDepth + 1 - depth) (hpos : 0 < depth) :
    EntryAgrees commands depth (entryWithin commands n) := by
  -- The induction is on how many frames may still be put on; at the limit neither side enters.
  induction n generalizing depth with
  | zero => exact ⟨iff_of_true rfl (by omega), fun enter h => nomatch h⟩
  | succ n ih =>
    refine ⟨iff_of_false (fun h => nomatch h) (by omega), fun enter h => ?_⟩
    obtain rfl := Option.some.inj h
    intro past f values m w hshows hd
    let below := m.note (.called f)
    let inside := setParameters f.params values below.push
    have hinner := ih (depth + 1) (by omega) (Nat.succ_pos _)
    have hpushed : Shows past below.push w := (hshows.note rfl).push
    have hdepth : below.push.depth = depth + 1 := congrArg (· + 1) hd
    have hbody := Statement.executeEach_agrees (Nat.succ_pos _) hinner f.body
      (setParameters_shows f.params values hpushed)
      (setParameters_depth (Nat.succ_pos _) f.params values hdepth)
    have hmoves := (setParameters_moves f.params values below.push).trans
      (Statement.executeEach_moves commands (entryWithin_moves commands n) f.body inside)
    have hkept := hmoves.keepsOuter (Nat.succ_pos _)
    change Agrees past depth
      ((Statement.executeEach commands (entryWithin commands n) f.body inside).1,
        (Statement.executeEach commands (entryWithin commands n) f.body inside).2.pop) _
    generalize Statement.executeEach commands (entryWithin commands n) f.body inside = r
      at hbody hkept ⊢
    -- Whatever the body does to the names it sees, the stack below its frame is the caller's.
    have hframes : r.2.pop.frames = below.frames := Machine.frames_pop_of_keepsOuter hkept
    refine ⟨hbody.result, ⟨?_, hbody.shows.host, ?_⟩, (congrArg FrameStack.depth hframes).trans hd⟩
    · rw [hframes]
      exact hshows.env
    · exact (invocations_note rfl _).trans hbody.shows.journal

/-! ## Refinement -/

/-- The world of a machine, before any command is counted. -/
def Machine.world (m : Machine σ) : World σ := ⟨m.frames.environment, m.host, []⟩

theorem Machine.shows_world (m : Machine σ) : Shows (m.journal.map invocations) m m.world := by
  refine ⟨rfl, rfl, ?_⟩
  rw [Option.map_map]
  rfl

/-- Statements that run on a stack with a frame do what they do in its environment: they end alike,
invoke the same commands on the same arguments, and leave a stack of the same depth whose names mean
what they mean in the environment left. -/
theorem executeAll_refines_environment (commands : Registry σ) (ss : List Statement)
    (m : Machine σ) (h : 0 < m.depth) :
    let r := Machine.executeAll commands ss m
    let q := World.executeEach commands m.depth ss m.world
    r.1 = q.1 ∧
      (∀ name, r.2.frames.get name = q.2.env.values name) ∧
      (∀ name, r.2.frames.function? name = q.2.env.functions name) ∧
      r.2.depth = m.depth ∧
      r.2.host = q.2.host ∧
      r.2.journal.map invocations =
        m.journal.map fun events => q.2.invocations ++ invocations events := by
  intro r q
  have hentry := entryWithin_agrees commands _ m.depth rfl h
  have hagrees := Statement.executeEach_agrees h hentry ss m.shows_world rfl
  have hr : r = Statement.executeEach commands (m.entry commands) ss m := by
    change Machine.executeAll commands ss m = _
    unfold Machine.executeAll
    rw [Machine.ensureRoot_of_depth_pos h]
  change Agrees _ _ (Statement.executeEach commands (m.entry commands) ss m) q at hagrees
  rw [← hr] at hagrees
  refine ⟨hagrees.result, fun name => ?_, fun name => ?_, hagrees.depth, ?_, ?_⟩
  · rw [hagrees.shows.env]
    rfl
  · rw [hagrees.shows.env]
    rfl
  · exact hagrees.shows.host.symm
  · rw [hagrees.shows.journal, Option.map_map]
    rfl

open Machine (withFailingFunction failingCall) in
theorem executeAll_refines_environment_failingCall :
    0 < withFailingFunction.depth ∧
      (World.executeEach Registry.empty withFailingFunction.depth [failingCall]
          withFailingFunction.world).1 = .error ⟨.commandNotFound "missing", [1, 2]⟩ ∧
        (Machine.executeAll Registry.empty [failingCall] withFailingFunction).2.depth = 2 := by
  have hpos : 0 < withFailingFunction.depth := by decide
  have h := executeAll_refines_environment Registry.empty [failingCall] withFailingFunction hpos
  refine ⟨hpos, ?_, h.2.2.2.1⟩
  rw [← h.1]
  rfl

end CommandScript
