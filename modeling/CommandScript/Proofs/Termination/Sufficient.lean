import CommandScript.Proofs.Machine.Functions
import CommandScript.Proofs.Machine.StackDiscipline
import CommandScript.Proofs.Parser.Depth
import CommandScript.Proofs.Termination.Limits

/-!
Limits that are enough. Each call leaves room for one call less, and each step into a tree leaves
less of the tree; so what an evaluation needs is the depth of its tree, and for each level of calls
the depth of the deepest expression in the body of a function that it may find. The parser bounds
this depth for all that sessions store, which makes one pair of limits enough for all of them.
-/

namespace CommandScript
set_option autoImplicit false

variable {σ α β : Type}

/-! ## Limited actions that are not given up -/

namespace LimitedAction

theorem bind_apply (act : LimitedAction σ α) (next : α → LimitedAction σ β) (m : Machine σ) :
    (act >>= next) m =
      match act m with
      | none => none
      | some (.ok a, m') => next a m'
      | some (.error e, m') => some (.error e, m') := by
  change (act m).bind (fun r => ExceptT.bindCont next r.1 r.2) = _
  rcases act m with _ | ⟨_ | a, m'⟩ <;> rfl

/-- From the machines that are ready, the limited action does what the action does, is not given up,
and leaves a machine that is ready again. -/
def Mirrors (ready : Machine σ → Prop) (limited : LimitedAction σ α) (act : Action σ α) : Prop :=
  ∀ m, ready m → limited m = some (act m) ∧ ready (act m).2

section

variable {ready : Machine σ → Prop} {frames : Nat}

theorem mirrors_pure (a : α) : Mirrors ready (pure a) (pure a) := fun _ hm => ⟨rfl, hm⟩

theorem mirrors_fail (f : Failure) :
    Mirrors ready (fail f : LimitedAction σ α) (Action.fail f) := fun _ hm => ⟨rfl, hm⟩

theorem mirrors_bind {limited : LimitedAction σ α} {act : Action σ α}
    {limitedNext : α → LimitedAction σ β} {next : α → Action σ β} (h : Mirrors ready limited act)
    (hnext : ∀ a, Mirrors ready (limitedNext a) (next a)) :
    Mirrors ready (limited >>= limitedNext) (act >>= next) := by
  intro m hm
  obtain ⟨hrun, hready⟩ := h m hm
  rw [bind_apply, Action.bind_apply, hrun]
  rcases hr : act m with ⟨e | a, m'⟩
  · rw [hr] at hready
    exact ⟨rfl, hready⟩
  · rw [hr] at hready
    exact hnext a m' hready

theorem mirrors_within {act : Action σ α} (hdepth : ∀ m, ready m → m.depth ≤ frames)
    (hact : ∀ m, ready m → ready (act m).2) : Mirrors ready (within frames act) act := by
  intro m hm
  have hafter := hact m hm
  refine ⟨?_, hafter⟩
  unfold within
  rw [if_pos (hdepth _ hafter)]

end

end LimitedAction

open LimitedAction

/-! ## Expressions -/

/-- What evaluation asks of the machines that are ready: that they stay within the frames and stay
ready when something is told or set, and that whoever finds a function on them finds one of the
`known` ones, and may enter it just if the stack is not too deep. -/
structure Suits (ready : Machine σ → Prop) (known : Function → Prop) (frames : Nat)
    (entry : Option (Entry σ)) : Prop where
  depth_le : ∀ m, ready m → m.depth ≤ frames
  note : ∀ e m, ready m → ready (m.note e)
  set : ∀ name v m, ready m → ready (m.set name v)
  found : ∀ m name f, ready m → m.frames.function? name = some f →
    known f ∧ (entry = none ↔ maxCallDepth < m.depth)

section

variable {ready : Machine σ → Prop} {entry : Option (Entry σ)}

theorem evaluateEach_mirrors {evaluate : Expr → LimitedAction σ Value} {es : List Expr}
    (h : ∀ e ∈ es, Mirrors ready (evaluate e) (e.evaluate entry)) :
    Mirrors ready (Limited.evaluateEach evaluate es) (Expr.evaluateAll entry es) := by
  induction es with
  | nil =>
    rw [Expr.evaluateAll]
    exact mirrors_pure []
  | cons e es ih =>
    obtain ⟨he, hes⟩ := List.forall_mem_cons.mp h
    rw [Expr.evaluateAll]
    apply mirrors_bind he
    intro v
    apply mirrors_bind (ih hes)
    intro vs
    exact mirrors_pure (v :: vs)

variable (commands : Registry σ) {known : Function → Prop} {frames : Nat}

theorem Limited.evaluate_mirrors (hsuits : Suits ready known frames entry) {needed : Nat}
    (henter : ∀ enter, entry = some enter → ∀ n, needed ≤ n → ∀ f values, known f →
      Mirrors ready (Limited.enter commands frames (Limited.evaluate commands frames n) f values)
        (enter f values)) (n : Nat) (e : Expr) (hn : e.depth + needed ≤ n) :
    Mirrors ready (Limited.evaluate commands frames n e) (e.evaluate entry) := by
  induction n generalizing e with
  | zero =>
    have hpos := e.depth_pos
    omega
  | succ n ih =>
    cases e with
    | literal value =>
      rw [Expr.evaluate]
      exact mirrors_pure _
    | «variable» name =>
      rw [Expr.evaluate]
      exact mirrors_within hsuits.depth_le fun m hm => hsuits.note _ m hm
    | assign name value =>
      rw [Expr.depth] at hn
      rw [Expr.evaluate]
      apply mirrors_bind (ih value (by omega))
      intro v
      have hset : Mirrors ready (within frames (Action.change (Machine.set name v))) _ :=
        mirrors_within hsuits.depth_le fun m hm => hsuits.set name v m hm
      exact mirrors_bind hset fun _ => mirrors_pure v
    | negate e =>
      rw [Expr.depth] at hn
      rw [Expr.evaluate]
      apply mirrors_bind (ih e (by omega))
      intro v
      cases v with
      | boolean b => exact mirrors_pure _
      | number _ | text _ | null => exact mirrors_fail _
    | binary left op right =>
      rw [Expr.depth] at hn
      rw [Expr.evaluate]
      apply mirrors_bind (ih left (by omega))
      intro l
      apply mirrors_bind (ih right (by omega))
      intro r
      exact mirrors_within hsuits.depth_le fun m hm => hm
    | call name args =>
      rw [Expr.depth] at hn
      have hargs : Mirrors ready (Limited.evaluateEach (Limited.evaluate commands frames n) args)
          (Expr.evaluateAll entry args) := by
        apply evaluateEach_mirrors
        intro e he
        have hle := Expr.depthOfAll_le_iff.mp (Nat.le_refl _) e he
        exact ih e (by omega)
      intro m hm
      have hnoted := hsuits.note (.soughtFunction name) m hm
      have hdepth : (Action.function? name m).2.depth ≤ frames := hsuits.depth_le _ hnoted
      rw [Expr.evaluate, Limited.evaluate, LimitedAction.bind_apply, Action.bind_apply]
      rw [within, if_pos hdepth]
      dsimp only [Action.function?]
      cases hf : m.frames.function? name with
      | none => exact mirrors_fail _ _ hnoted
      | some f =>
        obtain ⟨hknown, hroom⟩ := hsuits.found m name f hm hf
        dsimp only
        split
        · exact mirrors_fail _ _ hnoted
        split
        · exact mirrors_fail _ _ hnoted
        cases entry with
        | none =>
          have hdeep : maxCallDepth < (m.note (.soughtFunction name)).depth := hroom.mp rfl
          rw [atDepth, if_pos hdeep]
          exact mirrors_fail _ _ hnoted
        | some enter =>
          have hdeep : ¬maxCallDepth < (m.note (.soughtFunction name)).depth :=
            fun h => Option.some_ne_none enter (hroom.mpr h)
          rw [atDepth, if_neg hdeep]
          refine mirrors_bind hargs (fun values => ?_) _ hnoted
          exact mirrors_bind (henter enter rfl n (by omega) f values hknown) fun _ => mirrors_pure _

end

/-! ## Statements -/

/-- The machine has that depth, and in the body of no function that it stores is an expression
deeper than `bodies`. -/
structure Standing (bodies depth : Nat) (m : Machine σ) : Prop where
  depth : m.depth = depth
  stored : ∀ f, m.frames.Stores f → Statement.exprDepthOfAll f.body ≤ bodies

namespace Standing

variable {bodies depth : Nat} {m m' : Machine σ}

theorem of_frames (h : Standing bodies depth m) (hframes : m'.frames = m.frames) :
    Standing bodies depth m' := by
  refine ⟨(congrArg FrameStack.depth hframes).trans h.depth, ?_⟩
  rw [hframes]
  exact h.stored

theorem set (h : Standing bodies depth m) (hpos : 0 < depth) (name : String) (v : Value) :
    Standing bodies depth (m.set name v) := by
  refine ⟨(Machine.keepsOuter_set name v (h.depth.symm ▸ hpos)).depth.trans h.depth, ?_⟩
  intro f hf
  rw [Machine.frames_set, FrameStack.stores_set_iff] at hf
  exact h.stored f hf

theorem declare (h : Standing bodies depth m) (hpos : 0 < depth) {f : Function}
    (hf : Statement.exprDepthOfAll f.body ≤ bodies) : Standing bodies depth (m.declare f) := by
  refine ⟨(Machine.keepsOuter_declare f (h.depth.symm ▸ hpos)).depth.trans h.depth, ?_⟩
  intro g hg
  rw [Machine.frames_declare] at hg
  rcases FrameStack.eq_or_stores_of_declare hg with rfl | hg
  · exact hf
  · exact h.stored g hg

theorem push (h : Standing bodies depth m) : Standing bodies (depth + 1) m.push := by
  refine ⟨congrArg (· + 1) h.depth, ?_⟩
  intro f hf
  rw [Machine.frames_push, FrameStack.stores_push_iff] at hf
  exact h.stored f hf

theorem setParameters (h : Standing bodies depth m) (hpos : 0 < depth) (params : List Parameter)
    (values : List Value) : Standing bodies depth (setParameters params values m) := by
  unfold CommandScript.setParameters
  induction params.zip values generalizing m with
  | nil => exact h
  | cons pv pvs ih => exact ih (h.set hpos pv.1.name pv.2)

end Standing

theorem entryWithin_eq_none_iff (commands : Registry σ) (n : Nat) :
    entryWithin commands n = none ↔ n = 0 := by
  cases n with
  | zero => exact iff_of_true rfl rfl
  | succ n => exact iff_of_false nofun nofun

section

variable (commands : Registry σ) {bodies depth frames : Nat} {entry : Option (Entry σ)}
  {evaluate : Expr → LimitedAction σ Value}

theorem suits_standing (hpos : 0 < depth) (hdepth : depth ≤ frames) :
    Suits (Standing bodies depth) (fun f => Statement.exprDepthOfAll f.body ≤ bodies) frames
      (entryWithin commands (maxCallDepth + 1 - depth)) where
  depth_le m hm := hm.depth.symm ▸ hdepth
  note e m hm := hm.of_frames rfl
  set name v m hm := hm.set hpos name v
  found m name f hm hf := by
    refine ⟨hm.stored f (FrameStack.stores_of_function? hf), ?_⟩
    rw [entryWithin_eq_none_iff, hm.depth]
    omega

section

variable (hpos : 0 < depth) (hdepth : depth ≤ frames)
  (hevaluate : ∀ e : Expr, e.depth ≤ bodies →
    Mirrors (Standing bodies depth) (evaluate e) (e.evaluate entry))

include hdepth

theorem change_mirrors {change : Machine σ → Machine σ}
    (h : ∀ m, Standing bodies depth m → Standing bodies depth (change m)) :
    Mirrors (Standing bodies depth) (within frames (Action.change change)) (Action.change change) :=
  mirrors_within (fun _ hm => hm.depth.symm ▸ hdepth) h

theorem note_mirrors (e : Event) :
    Mirrors (Standing bodies depth)
      (within frames (Action.change (Machine.note e)) : LimitedAction σ Unit)
      (Action.change (Machine.note e)) :=
  change_mirrors hdepth fun _ hm => hm.of_frames rfl

theorem invoke_mirrors (c : Command σ) (values : List Value) :
    Mirrors (Standing bodies depth) (within frames (Action.invoke c values))
      (Action.invoke c values) := by
  apply mirrors_within
  · intro m hm
    exact hm.depth.symm ▸ hdepth
  · intro m hm
    unfold Action.invoke
    cases c.bind values with
    | error f => exact hm
    | ok args => exact hm.of_frames rfl

include hpos hevaluate

theorem execute_mirrors {s : Statement} (hs : s.exprDepth ≤ bodies) :
    Mirrors (Standing bodies depth) (Limited.execute commands frames evaluate s)
      (s.execute commands entry) := by
  unfold Limited.execute Statement.execute
  apply mirrors_bind (note_mirrors hdepth _)
  intro _
  cases s with
  | command place name args =>
    dsimp only
    cases commands.find? name with
    | none => exact mirrors_fail _
    | some c =>
      have hargs := Expr.depthOfAll_le_iff.mp hs
      apply mirrors_bind (evaluateEach_mirrors fun e he => hevaluate e (hargs e he))
      intro values
      apply mirrors_bind (note_mirrors hdepth _)
      intro _
      exact invoke_mirrors hdepth c values
  | expression place e => exact mirrors_bind (hevaluate e hs) fun _ => mirrors_pure ()
  | declaration place name params body =>
    exact change_mirrors hdepth fun m hm => hm.declare hpos hs

theorem executeEach_mirrors {ss : List Statement} (hss : Statement.exprDepthOfAll ss ≤ bodies) :
    Mirrors (Standing bodies depth) (Limited.executeEach commands frames evaluate ss)
      (Statement.executeEach commands entry ss) := by
  induction ss with
  | nil => exact fun m hm => ⟨rfl, hm⟩
  | cons s ss ih =>
    obtain ⟨hs, hss⟩ := Nat.max_le.mp hss
    intro m hm
    obtain ⟨hrun, hready⟩ := execute_mirrors commands hpos hdepth hevaluate hs m hm
    rw [Limited.executeEach, Statement.executeEach, hrun]
    rcases hr : s.execute commands entry m with ⟨e | _, m'⟩
    · rw [hr] at hready
      exact ⟨rfl, hready⟩
    · rw [hr] at hready
      exact ih hss m' hready

theorem executeAll_mirrors {ss : List Statement} (hss : Statement.exprDepthOfAll ss ≤ bodies)
    {m : Machine σ} (hm : Standing bodies depth m.ensureRoot) :
    Limited.executeAll commands frames evaluate ss m =
        some (Statement.executeEach commands entry ss m.ensureRoot) ∧
      Standing bodies depth (Statement.executeEach commands entry ss m.ensureRoot).2 := by
  have hwithin : (Action.change Machine.ensureRoot m).2.depth ≤ frames := hm.depth.symm ▸ hdepth
  rw [Limited.executeAll, LimitedAction.bind_apply, within, if_pos hwithin]
  exact executeEach_mirrors commands hpos hdepth hevaluate hss _ hm

end

/-! ## Calls -/

theorem inNewFrame_mirrors {limited : LimitedAction σ α} {act : Action σ α}
    (hdepth : depth + 1 ≤ frames) (h : Mirrors (Standing bodies (depth + 1)) limited act)
    (hmoves : Action.Moves (fun _ => True) True act) :
    Mirrors (Standing bodies depth) (LimitedAction.inNewFrame frames limited)
      (Action.inNewFrame act) := by
  intro m hm
  have hwithin : (Action.change Machine.push m).2.depth ≤ frames := hm.push.depth.symm ▸ hdepth
  obtain ⟨hrun, -⟩ := h m.push hm.push
  have hkept := (hmoves m.push).keepsOuter (Nat.succ_pos _)
  refine ⟨?_, hm.of_frames (Machine.frames_pop_of_keepsOuter hkept)⟩
  rw [LimitedAction.inNewFrame, LimitedAction.bind_apply, within, if_pos hwithin]
  change (limited m.push).map _ = _
  rw [hrun]
  rfl

theorem enter_mirrors (hframes : maxCallDepth + 1 ≤ frames) {levels : Nat}
    (hlevels : levels = maxCallDepth + 1 - depth) (hpos : 0 < depth) :
    ∀ enter, entryWithin commands levels = some enter → ∀ n, levels * bodies ≤ n → ∀ f values,
      Statement.exprDepthOfAll f.body ≤ bodies →
        Mirrors (Standing bodies depth)
          (Limited.enter commands frames (Limited.evaluate commands frames n) f values)
          (enter f values) := by
  -- The induction is on how many frames may still be put on; one level is used up by this call.
  induction levels generalizing depth with
  | zero => exact fun enter h => nomatch h
  | succ levels ih =>
    intro enter h n hn f values hf
    obtain rfl := Option.some.inj h
    have hbelow : levels = maxCallDepth + 1 - (depth + 1) := by omega
    have hdepth : depth + 1 ≤ frames := by omega
    have hsuits : Suits (Standing bodies (depth + 1)) _ frames (entryWithin commands levels) :=
      hbelow ▸ suits_standing commands (Nat.succ_pos depth) hdepth
    have hevaluate (e : Expr) (he : e.depth ≤ bodies) :
        Mirrors (Standing bodies (depth + 1)) (Limited.evaluate commands frames n e)
          (e.evaluate (entryWithin commands levels)) := by
      rw [Nat.succ_mul] at hn
      exact Limited.evaluate_mirrors commands hsuits (ih hbelow (Nat.succ_pos _)) n e (by omega)
    apply mirrors_bind (note_mirrors (Nat.le_of_succ_le hdepth) _)
    intro _
    apply inNewFrame_mirrors hdepth
    · apply mirrors_bind (change_mirrors hdepth fun m hm => hm.setParameters (Nat.succ_pos _) _ _)
      intro _ m hm
      have hroot : m.ensureRoot = m :=
        Machine.ensureRoot_of_depth_pos (hm.depth.symm ▸ Nat.succ_pos _)
      have hall := executeAll_mirrors commands (Nat.succ_pos _) hdepth hevaluate hf
        (hroot.symm ▸ hm)
      rwa [hroot] at hall
    · apply Action.moves_bind fun m => setParameters_moves f.params values m
      intro _
      exact Statement.executeEach_moves commands (entryWithin_moves commands levels) f.body

end

end CommandScript
