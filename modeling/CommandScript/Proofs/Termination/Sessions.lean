import CommandScript.Proofs.Session.Reading
import CommandScript.Proofs.Termination.Sufficient

/-!
Every evaluation ends. From any machine, limits that are large enough do not change what statements
and expressions do; and the sessions that begin without frames all keep within the same limits, since
they store no function but those of scripts that the parser has passed.
-/

namespace CommandScript
set_option autoImplicit false

variable {σ : Type}

open LimitedAction

/-- What may be stored and run within the limits, on a stack of any depth: expressions as deep as
`bodies`, at each level of calls. -/
structure Limits.Allow (limits : Limits) (bodies : Nat) : Prop where
  nesting : (maxCallDepth + 1) * bodies ≤ limits.nesting
  frames : maxCallDepth + 1 ≤ limits.frames

namespace Machine

variable (commands : Registry σ) {limits : Limits} {bodies depth : Nat}

theorem evaluateWithin_mirrors (hlimits : limits.Allow bodies) (hpos : 0 < depth)
    (hdepth : depth ≤ limits.frames) {e : Expr} (he : e.depth ≤ bodies) :
    Mirrors (Standing bodies depth) (evaluateWithin limits commands e)
      (e.evaluate (entryWithin commands (maxCallDepth + 1 - depth))) := by
  apply Limited.evaluate_mirrors commands (suits_standing commands hpos hdepth)
    (enter_mirrors commands hlimits.frames rfl hpos)
  -- A frame is there already, so at least one level of calls is left for the expression itself.
  have hlevels : maxCallDepth + 1 - depth + 1 ≤ maxCallDepth + 1 := by omega
  calc e.depth + (maxCallDepth + 1 - depth) * bodies
      ≤ bodies + (maxCallDepth + 1 - depth) * bodies := Nat.add_le_add_right he _
    _ = (maxCallDepth + 1 - depth + 1) * bodies := by rw [Nat.succ_mul, Nat.add_comm]
    _ ≤ (maxCallDepth + 1) * bodies := Nat.mul_le_mul_right bodies hlevels
    _ ≤ limits.nesting := hlimits.nesting

theorem executeAllWithin_eq (hlimits : limits.Allow bodies) (hpos : 0 < depth)
    (hdepth : depth ≤ limits.frames) {ss : List Statement}
    (hss : Statement.exprDepthOfAll ss ≤ bodies) {m : Machine σ}
    (hm : Standing bodies depth m.ensureRoot) :
    executeAllWithin limits commands ss m = some (executeAll commands ss m) ∧
      Standing bodies depth (executeAll commands ss m).2 := by
  have hentry : m.ensureRoot.entry commands =
      entryWithin commands (maxCallDepth + 1 - depth) := by rw [entry, hm.depth]
  rw [executeAll, hentry]
  exact executeAll_mirrors commands hpos hdepth
    (fun e he => evaluateWithin_mirrors commands hlimits hpos hdepth he) hss hm

theorem runWithin_eq (hlimits : limits.Allow bodies) (hdepth : depth + 1 ≤ limits.frames)
    {ss : List Statement} (hss : Statement.exprDepthOfAll ss ≤ bodies) {m : Machine σ}
    (hm : Standing bodies depth m) :
    runWithin limits commands ss m = some (run commands ss m) := by
  have hwithin : (Action.change push m).2.depth ≤ limits.frames := hm.push.depth.symm ▸ hdepth
  have hroot : m.push.ensureRoot = m.push := ensureRoot_of_depth_pos (Nat.succ_pos _)
  obtain ⟨hrun, -⟩ := executeAllWithin_eq commands hlimits (Nat.succ_pos depth) hdepth hss
    (hroot.symm ▸ hm.push)
  rw [runWithin, LimitedAction.inNewFrame, LimitedAction.bind_apply, within, if_pos hwithin]
  change (executeAllWithin limits commands ss m.push).map _ = _
  rw [hrun]
  rfl

/-! ## Limits for any machine -/

theorem exists_standing (m : Machine σ) : ∃ bodies, Standing bodies m.depth m := by
  obtain ⟨bodies, h⟩ :=
    FrameStack.exists_bound (fun f => Statement.exprDepthOfAll f.body) m.frames
  exact ⟨bodies, rfl, h⟩

/-- No function is stored, and at most one frame is there. -/
structure Bare (m : Machine σ) : Prop where
  depth_le : m.depth ≤ 1
  stored : ∀ f, ¬m.frames.Stores f

theorem bare_of_depth_zero {m : Machine σ} (h : m.depth = 0) : m.Bare := by
  obtain ⟨⟨_ | ⟨f, fs⟩⟩, host, journal⟩ := m
  · exact ⟨Nat.zero_le 1, FrameStack.not_stores_empty⟩
  · exact nomatch h

theorem Bare.set {m : Machine σ} (h : m.Bare) (name : String) (v : Value) : (m.set name v).Bare := by
  refine ⟨?_, fun f hf => ?_⟩
  · have hdepth := h.depth_le
    obtain ⟨⟨_ | ⟨f, fs⟩⟩, host, journal⟩ := m
    · exact Nat.le_refl 1
    · exact hdepth
  · rw [frames_set, FrameStack.stores_set_iff] at hf
    exact h.stored f hf

/-- On a bare machine no function is found, so it does not matter how one would be entered. -/
theorem suits_bare {frames : Nat} (hframes : 1 ≤ frames) (entry : Option (Entry σ)) :
    Suits Bare (fun _ => False) frames entry where
  depth_le _ hm := Nat.le_trans hm.depth_le hframes
  note _ _ hm := ⟨hm.depth_le, hm.stored⟩
  set name v _ hm := hm.set name v
  found _ _ f hm hf := absurd (FrameStack.stores_of_function? hf) (hm.stored f)

theorem evaluateWithin_of_bare {m : Machine σ} (hm : m.Bare) {e : Expr}
    (hnesting : e.depth ≤ limits.nesting) (hframes : 1 ≤ limits.frames) :
    evaluateWithin limits commands e m = some (evaluate commands e m) := by
  have hneeded : e.depth + 0 ≤ limits.nesting := hnesting
  have hmirrors := Limited.evaluate_mirrors commands (suits_bare hframes (m.entry commands))
    (fun _ _ _ _ _ _ hknown => hknown.elim) limits.nesting e hneeded
  exact (hmirrors m hm).1

theorem exists_limits_executeAll (m : Machine σ) (ss : List Statement) :
    ∃ least : Limits, ∀ limits : Limits,
      least.nesting ≤ limits.nesting → least.frames ≤ limits.frames →
        executeAllWithin limits commands ss m = some (executeAll commands ss m) := by
  obtain ⟨stored, hstored⟩ := m.ensureRoot.exists_standing
  let bodies := max stored (Statement.exprDepthOfAll ss)
  refine ⟨⟨(maxCallDepth + 1) * bodies, max (maxCallDepth + 1) m.ensureRoot.depth⟩, ?_⟩
  intro limits hnesting hframes
  have hlimits : limits.Allow bodies := ⟨hnesting, (Nat.max_le.mp hframes).1⟩
  have hm : Standing bodies m.ensureRoot.depth m.ensureRoot :=
    ⟨rfl, fun f hf => Nat.le_trans (hstored.stored f hf) (Nat.le_max_left _ _)⟩
  exact (executeAllWithin_eq commands hlimits m.depth_ensureRoot_pos (Nat.max_le.mp hframes).2
    (Nat.le_max_right _ _) hm).1

theorem exists_limits_evaluate (m : Machine σ) (e : Expr) :
    ∃ least : Limits, ∀ limits : Limits,
      least.nesting ≤ limits.nesting → least.frames ≤ limits.frames →
        evaluateWithin limits commands e m = some (evaluate commands e m) := by
  rcases Nat.eq_zero_or_pos m.depth with hzero | hpos
  · refine ⟨⟨e.depth, 1⟩, fun limits hnesting hframes => ?_⟩
    exact evaluateWithin_of_bare commands (bare_of_depth_zero hzero) hnesting hframes
  · obtain ⟨stored, hstored⟩ := m.exists_standing
    let bodies := max stored e.depth
    refine ⟨⟨(maxCallDepth + 1) * bodies, max (maxCallDepth + 1) m.depth⟩, ?_⟩
    intro limits hnesting hframes
    have hlimits : limits.Allow bodies := ⟨hnesting, (Nat.max_le.mp hframes).1⟩
    have hm : Standing bodies m.depth m :=
      ⟨rfl, fun f hf => Nat.le_trans (hstored.stored f hf) (Nat.le_max_left _ _)⟩
    exact (evaluateWithin_mirrors commands hlimits hpos (Nat.max_le.mp hframes).2
      (Nat.le_max_right _ _) m hm).1

end Machine

/-! ## Sessions -/

namespace Session

variable {limits : Limits} {s : Session σ}

/-- There is at most one frame, and it stores only functions that the parser has passed. -/
def Settled (s : Session σ) : Prop := ∃ depth ≤ 1, Standing Parser.maxDepth depth s.machine

theorem standing_ensureRoot {depth : Nat} (hdepth : depth ≤ 1) {m : Machine σ}
    (hm : Standing Parser.maxDepth depth m) : Standing Parser.maxDepth 1 m.ensureRoot := by
  refine ⟨?_, fun f hf => ?_⟩
  · have hle := hm.depth.symm ▸ hdepth
    obtain ⟨⟨_ | ⟨f, fs⟩⟩, host, journal⟩ := m
    · rfl
    · exact Nat.le_antisymm hle (Nat.succ_pos _)
  · rw [Machine.frames_ensureRoot, FrameStack.stores_ensureRoot_iff] at hf
    exact hm.stored f hf

theorem settled_start (commands : Registry σ) (host : σ) (journal : Option (List Event)) :
    Settled ⟨commands, .start host journal⟩ :=
  ⟨0, Nat.zero_le 1, rfl, fun f hf => absurd hf (FrameStack.not_stores_empty f)⟩

theorem take_eq (input : Input) (s : Session σ) :
    s.take input = s.readAnd (input.action s.commands) input.source := by
  cases input <;> rfl

theorem actionWithin_eq (hlimits : limits.Allow Parser.maxDepth) (commands : Registry σ)
    (input : Input) {script : Script} (hscript : Statement.exprDepthOfAll script ≤ Parser.maxDepth)
    {depth : Nat} (hdepth : depth ≤ 1) {m : Machine σ} (hm : Standing Parser.maxDepth depth m) :
    input.actionWithin limits commands script m = some (input.action commands script m) ∧
      ∃ depth ≤ 1, Standing Parser.maxDepth depth (input.action commands script m).2 := by
  have hframes : 2 ≤ limits.frames := Nat.le_trans (by decide) hlimits.frames
  cases input with
  | run source =>
    have hrun := Machine.runWithin_eq commands hlimits (by omega) hscript hm
    exact ⟨hrun, depth, hdepth, hm.of_frames (Machine.frames_run commands script m)⟩
  | feed source =>
    obtain ⟨hrun, hafter⟩ := Machine.executeAllWithin_eq commands hlimits Nat.one_pos (by omega)
      hscript (standing_ensureRoot hdepth hm)
    exact ⟨hrun, 1, Nat.le_refl 1, hafter⟩

theorem takeWithin_eq (hlimits : limits.Allow Parser.maxDepth) (input : Input) (hs : s.Settled) :
    s.takeWithin limits input = some (s.take input) ∧ (s.take input).2.Settled := by
  obtain ⟨depth, hdepth, hm⟩ := hs
  have hread := hm.of_frames (read_frames input.source s)
  rw [take_eq, takeWithin, read_eq]
  cases hparse : Script.parse input.source with
  | error e =>
    rw [readAnd_of_error _ hparse]
    exact ⟨rfl, depth, hdepth, hread⟩
  | ok script =>
    have hscript := Script.exprDepth_le_of_ofLexemes hparse
    obtain ⟨hrun, hafter⟩ := actionWithin_eq hlimits s.commands input hscript hdepth hread
    rw [readAnd_of_ok _ hparse]
    dsimp only
    rw [read_commands, hrun]
    exact ⟨rfl, hafter⟩

theorem takeEachWithin_eq (hlimits : limits.Allow Parser.maxDepth) (inputs : List Input)
    (hs : s.Settled) : s.takeEachWithin limits inputs = some (s.takeEach inputs) := by
  induction inputs generalizing s with
  | nil => rfl
  | cons input inputs ih =>
    obtain ⟨htake, hafter⟩ := takeWithin_eq hlimits input hs
    rw [takeEachWithin, htake]
    change (takeEachWithin limits inputs (s.take input).2).bind _ = _
    rw [ih hafter]
    rfl

end Session

/-- From any machine, statements and expressions are evaluated to the end within some limits, larger
limits giving the same; and one pair of limits is enough for all inputs of all sessions that begin
without frames, of which no input is given up and each has the result that it has without limits. -/
theorem evaluation_ends_within (commands : Registry σ) :
    (∀ (m : Machine σ) (ss : List Statement), ∃ least : Limits, ∀ limits : Limits,
        least.nesting ≤ limits.nesting → least.frames ≤ limits.frames →
          Machine.executeAllWithin limits commands ss m =
            some (Machine.executeAll commands ss m)) ∧
      (∀ (m : Machine σ) (e : Expr), ∃ least : Limits, ∀ limits : Limits,
        least.nesting ≤ limits.nesting → least.frames ≤ limits.frames →
          Machine.evaluateWithin limits commands e m = some (Machine.evaluate commands e m)) ∧
      ∀ (host : σ) (journal : Option (List Event)) (inputs : List Input),
        let s : Session σ := ⟨commands, .start host journal⟩
        s.takeEachWithin ⟨129 * 256, 129⟩ inputs = some (s.takeEach inputs) := by
  have hlimits : Limits.Allow ⟨129 * 256, 129⟩ Parser.maxDepth := ⟨by decide, by decide⟩
  refine ⟨?_, ?_, ?_⟩
  · exact Machine.exists_limits_executeAll commands
  · exact Machine.exists_limits_evaluate commands
  · intro host journal inputs
    exact Session.takeEachWithin_eq hlimits inputs (Session.settled_start commands host journal)

end CommandScript
