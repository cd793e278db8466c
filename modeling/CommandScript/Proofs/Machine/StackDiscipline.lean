import CommandScript.Proofs.Machine.Moves

/-!
The discipline of the frame stack. On a stack with a frame, no move changes the depth or any frame
but the innermost one; so whatever is done in a new frame leaves, once that frame is off, the very
stack there was before. The main statement says both of runs, whether they succeed or fail.
-/

namespace CommandScript
set_option autoImplicit false

variable {σ : Type}

/-! ## Statements in a row -/

theorem Statement.executeEach_append (commands : Registry σ) (entry : Option (Entry σ))
    (ss ts : List Statement) :
    executeEach commands entry (ss ++ ts) =
      executeEach commands entry ss >>= fun _ => executeEach commands entry ts := by
  funext m
  rw [Action.bind_apply]
  induction ss generalizing m with
  | nil => rfl
  | cons s ss ih =>
    rw [List.cons_append, executeEach, executeEach]
    rcases s.execute commands entry m with ⟨e | _, m'⟩
    · rfl
    · exact ih m'

namespace Machine

/-- Between the two machines the stack keeps its depth and all frames but the innermost one. -/
structure KeepsOuter (m m' : Machine σ) : Prop where
  depth : m'.depth = m.depth
  outer : m'.frames.pop = m.frames.pop

/-! ## One change of the innermost frame -/

theorem depth_modify (change : Frame → Frame) {s : FrameStack} (h : 0 < s.depth) :
    (s.modify change).depth = s.depth := by
  obtain ⟨_ | ⟨f, fs⟩⟩ := s
  · exact absurd h (Nat.lt_irrefl 0)
  · rfl

theorem keepsOuter_set (name : String) (v : Value) {m : Machine σ} (h : 0 < m.depth) :
    KeepsOuter m (m.set name v) := by
  refine ⟨?_, ?_⟩
  · simpa [depth, FrameStack.set] using depth_modify _ h
  · simp [FrameStack.set]

theorem keepsOuter_declare (f : Function) {m : Machine σ} (h : 0 < m.depth) :
    KeepsOuter m (m.declare f) := by
  refine ⟨?_, ?_⟩
  · simpa [depth, FrameStack.declare] using depth_modify _ h
  · simp [FrameStack.declare]

/-! ## All moves -/

/-- The frame of a call is gone after it, and with it all that the call did to the stack. -/
theorem frames_pop_of_keepsOuter {m m' : Machine σ} (h : KeepsOuter m.push m') :
    m'.pop.frames = m.frames := by
  simp [h.outer]

theorem Moves.keepsOuter {written : String → Prop} {declares : Prop} {m m' : Machine σ}
    (h : Moves written declares m m') : 0 < m.depth → KeepsOuter m m' := by
  -- A frame that is put on makes the stack non-empty, so the moves in it need no assumption.
  induction h with
  | stay m => exact fun _ => ⟨rfl, rfl⟩
  | note e m => exact fun _ => ⟨rfl, rfl⟩
  | host h m => exact fun _ => ⟨rfl, rfl⟩
  | set name v m hname => exact keepsOuter_set name v
  | declare f m hdeclares => exact keepsOuter_declare f
  | frame h ih =>
    intro _
    have hframes := frames_pop_of_keepsOuter (ih (Nat.succ_pos _))
    exact ⟨congrArg FrameStack.depth hframes, congrArg FrameStack.pop hframes⟩
  | trans h₁ h₂ ih₁ ih₂ =>
    intro hpos
    have hfirst := ih₁ hpos
    have hsecond := ih₂ (hfirst.depth.symm ▸ hpos)
    exact ⟨hsecond.depth.trans hfirst.depth, hsecond.outer.trans hfirst.outer⟩

/-! ## Runs -/

theorem executeAll_keepsOuter (commands : Registry σ) (ss : List Statement) {m : Machine σ}
    (h : 0 < m.depth) : KeepsOuter m (executeAll commands ss m).2 :=
  (executeAll_moves commands ss h).keepsOuter h

theorem execute_keepsOuter (commands : Registry σ) (s : Statement) {m : Machine σ}
    (h : 0 < m.depth) : KeepsOuter m (execute commands s m).2 :=
  (execute_moves commands s m).keepsOuter h

@[simp] theorem frames_run (commands : Registry σ) (ss : List Statement) (m : Machine σ) :
    (run commands ss m).2.frames = m.frames :=
  frames_pop_of_keepsOuter (executeAll_keepsOuter commands ss (Nat.succ_pos _))

/-- The second statements find the frame of the first ones, as deep in the stack. -/
theorem executeAll_append (commands : Registry σ) (ss ts : List Statement) :
    executeAll commands (ss ++ ts) =
      executeAll commands ss >>= fun _ => executeAll commands ts := by
  funext m
  have hpos := m.depth_ensureRoot_pos
  have hkept := executeAll_keepsOuter commands ss hpos
  unfold executeAll at hkept
  rw [ensureRoot_of_depth_pos hpos] at hkept
  rw [Action.bind_apply, executeAll, executeAll, Statement.executeEach_append, Action.bind_apply]
  rcases hr : Statement.executeEach commands (m.ensureRoot.entry commands) ss m.ensureRoot
    with ⟨e | _, m'⟩
  · rfl
  · rw [hr] at hkept
    have hdepth : m'.depth = m.ensureRoot.depth := hkept.depth
    have hroot : m'.ensureRoot = m' := ensureRoot_of_depth_pos (by rw [hdepth]; exact hpos)
    dsimp only
    unfold executeAll entry
    rw [hroot, hdepth]

/-- A run leaves the stack as it was, however it ends, and in a stack with a frame statements change
the innermost frame at most. -/
theorem stack_discipline (commands : Registry σ) (m : Machine σ) :
    (∀ ss, (run commands ss m).2.frames = m.frames) ∧
      (0 < m.depth →
        (∀ ss, KeepsOuter m (executeAll commands ss m).2) ∧
          ∀ s, KeepsOuter m (execute commands s m).2) := by
  refine ⟨fun ss => frames_run commands ss m, fun h => ⟨fun ss => ?_, fun s => ?_⟩⟩
  · exact executeAll_keepsOuter commands ss h
  · exact execute_keepsOuter commands s h

/-- A machine on whose lower frame a function is declared that fails when it is called. -/
def withFailingFunction : Machine Unit :=
  ((start () none).push.declare
    ⟨"f", [⟨"any", "x"⟩], [.command ⟨1, 1⟩ "missing" []]⟩).push

def failingCall : Statement := .expression ⟨2, 1⟩ (.call "f" [.literal (.boolean true)])

theorem stack_discipline_failingCall :
    (execute Registry.empty failingCall withFailingFunction).1 =
        .error ⟨.commandNotFound "missing", [1]⟩ ∧
      0 < withFailingFunction.depth ∧
        KeepsOuter withFailingFunction
          (execute Registry.empty failingCall withFailingFunction).2 := by
  have hpos : 0 < withFailingFunction.depth := by decide
  refine ⟨by rfl, hpos, ?_⟩
  exact ((stack_discipline Registry.empty withFailingFunction).2 hpos).2 failingCall

end Machine

end CommandScript
