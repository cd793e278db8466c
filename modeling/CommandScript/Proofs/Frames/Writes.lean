import CommandScript.Frames

/-!
Frame stacks and what was written to them. Which frames are left after any operations, and which
writes went into each of them, can be told from the operations alone, by counting how deep the stack
was. The main statement is that a name means what its latest write into a frame says, and of the frames
that are left and have such a write the innermost one counts.
-/

namespace CommandScript
set_option autoImplicit false

/-! ## Writes -/

/-- What can be written in a frame. -/
inductive Write where
  | variable (name : String) (v : Value)
  | function (f : Function)

namespace Write

def apply : Write → Frame → Frame
  | .variable name v => (·.set name v)
  | .function f => (·.declare f)

/-- The value that the write gives to the name, if it is a write of that variable. -/
def value? (name : String) : Write → Option Value
  | .variable written v => if written = name then some v else none
  | .function _ => none

/-- The function that the write gives to the name, if it declares one under it. -/
def function? (name : String) : Write → Option Function
  | .variable _ _ => none
  | .function f => if f.name = name then some f else none

@[simp] theorem value?_apply (w : Write) (frame : Frame) (name : String) :
    (w.apply frame).value? name = (w.value? name).or (frame.value? name) := by
  cases w with
  | «variable» written v =>
    rw [apply, value?, Frame.value?_set]
    split <;> rfl
  | function f => rfl

@[simp] theorem function?_apply (w : Write) (frame : Frame) (name : String) :
    (w.apply frame).function? name = (w.function? name).or (frame.function? name) := by
  cases w with
  | «variable» written v => rfl
  | function f =>
    rw [apply, function?, Frame.function?_declare]
    split <;> rfl

end Write

namespace Frame

/-- The frame into which the writes went, the latest of which is given first. -/
def ofWrites (ws : List Write) : Frame := ws.foldr Write.apply empty

@[simp] theorem value?_ofWrites (ws : List Write) (name : String) :
    (ofWrites ws).value? name = ws.findSome? (Write.value? name) := by
  induction ws with
  | nil => exact value?_empty name
  | cons w ws ih =>
    rw [List.findSome?_cons, ← ih]
    refine (w.value?_apply (ofWrites ws) name).trans ?_
    cases w.value? name <;> rfl

@[simp] theorem function?_ofWrites (ws : List Write) (name : String) :
    (ofWrites ws).function? name = ws.findSome? (Write.function? name) := by
  induction ws with
  | nil => exact function?_empty name
  | cons w ws ih =>
    rw [List.findSome?_cons, ← ih]
    refine (w.function?_apply (ofWrites ws) name).trans ?_
    cases w.function? name <;> rfl

end Frame

/-! ## Operations -/

/-- What can be done to a stack. -/
inductive StackOperation where
  | push
  | pop
  | write (w : Write)
  | ensureRoot

namespace StackOperation

def apply : StackOperation → FrameStack → FrameStack
  | push => FrameStack.push
  | pop => FrameStack.pop
  | write (.variable name v) => FrameStack.set name v
  | write (.function f) => FrameStack.declare f
  | ensureRoot => FrameStack.ensureRoot

@[simp] theorem apply_write (w : Write) (s : FrameStack) : (write w).apply s = s.modify w.apply := by
  cases w <;> rfl

/-- How deep a stack is after the operation, if it was so deep before. -/
def depthFrom (depth : Nat) : StackOperation → Nat
  | push => depth + 1
  | pop => depth - 1
  | write _ | ensureRoot => max depth 1

/-- How deep the stack is after the operations, of which the latest is given first; there was none in
the beginning. -/
def depthAfter : List StackOperation → Nat
  | [] => 0
  | op :: past => op.depthFrom (depthAfter past)

def write? : StackOperation → Option Write
  | write w => some w
  | push | pop | ensureRoot => none

/-- The writes that went into the frame of the given number, the outermost being number one; the
latest first. Where the stack is not that deep there is no such frame, and what was written before that
went into a frame that is gone. -/
def writesInto (level : Nat) : List StackOperation → List Write
  | [] => []
  | op :: past =>
    if depthAfter (op :: past) < level then []
    else if depthAfter (op :: past) = level then op.write?.toList ++ writesInto level past
    else writesInto level past

/-- The numbers of the frames of a stack, the innermost first. -/
def levels : Nat → List Nat
  | 0 => []
  | n + 1 => (n + 1) :: levels n

end StackOperation

open StackOperation

theorem le_of_mem_levels {n level : Nat} (h : level ∈ levels n) : level ≤ n := by
  induction n with
  | zero => exact nomatch h
  | succ n ih =>
    rcases List.mem_cons.mp h with rfl | h
    · exact Nat.le_refl _
    · exact Nat.le_succ_of_le (ih h)

section

variable {level : Nat} {op : StackOperation} {past : List StackOperation}

theorem writesInto_of_lt (h : depthAfter past < level) : writesInto level past = [] := by
  cases past with
  | nil => rfl
  | cons op past => rw [writesInto, if_pos h]

/-- The latest operation writes in the innermost frame, if it writes at all. -/
theorem writesInto_innermost (h : depthAfter (op :: past) = level) :
    writesInto level (op :: past) = op.write?.toList ++ writesInto level past := by
  rw [writesInto, if_neg (Nat.not_lt.mpr (Nat.le_of_eq h.symm)), if_pos h]

theorem writesInto_outer (h : level < depthAfter (op :: past)) :
    writesInto level (op :: past) = writesInto level past := by
  rw [writesInto, if_neg (Nat.not_lt.mpr (Nat.le_of_lt h)), if_neg (Nat.ne_of_gt h)]

theorem writesInto_of_write?_eq_none (hop : op.write? = none) (h : level ≤ depthAfter (op :: past)) :
    writesInto level (op :: past) = writesInto level past := by
  rcases Nat.lt_or_eq_of_le h with h | rfl
  · exact writesInto_outer h
  · rw [writesInto_innermost rfl, hop]
    rfl

/-- The write went into the frame of the given number, which has been there ever since. -/
def WentInto (level : Nat) (w : Write) (past : List StackOperation) : Prop :=
  ∃ later earlier, past = later ++ .write w :: earlier ∧ depthAfter (.write w :: earlier) = level ∧
    ∀ since, since <:+ later → level ≤ depthAfter (since ++ .write w :: earlier)

variable {w : Write}

theorem wentInto_cons_iff : WentInto level w (op :: past) ↔
    (op = .write w ∧ depthAfter (op :: past) = level) ∨
      (level ≤ depthAfter (op :: past) ∧ WentInto level w past) := by
  constructor
  · rintro ⟨_ | ⟨op', later⟩, earlier, h, hlevel, hsince⟩
    · obtain ⟨rfl, rfl⟩ := List.cons.inj h
      exact .inl ⟨rfl, hlevel⟩
    · obtain ⟨rfl, rfl⟩ := List.cons.inj h
      refine .inr ⟨hsince _ List.suffix_rfl, later, earlier, rfl, hlevel, fun since h => ?_⟩
      exact hsince since (h.trans (List.suffix_cons op later))
  · rintro (⟨rfl, hlevel⟩ | ⟨hdeep, later, earlier, rfl, hlevel, hsince⟩)
    · refine ⟨[], past, rfl, hlevel, fun since h => ?_⟩
      rw [List.suffix_nil.mp h]
      exact Nat.le_of_eq hlevel.symm
    · refine ⟨op :: later, earlier, rfl, hlevel, fun since h => ?_⟩
      rcases List.suffix_cons_iff.mp h with rfl | h
      · exact hdeep
      · exact hsince since h

theorem mem_writesInto_iff : w ∈ writesInto level past ↔ WentInto level w past := by
  induction past with
  | nil => exact iff_of_false nofun fun ⟨later, earlier, h, _⟩ => by simp at h
  | cons op past ih =>
    rw [wentInto_cons_iff, ← ih]
    rcases Nat.lt_trichotomy (depthAfter (op :: past)) level with hlt | rfl | hgt
    · rw [writesInto_of_lt hlt]
      refine iff_of_false nofun ?_
      rintro (⟨-, h⟩ | ⟨h, -⟩) <;> omega
    · have hop : w ∈ op.write?.toList ↔ op = .write w := by
        cases op <;> simp [write?, eq_comm]
      rw [writesInto_innermost rfl, List.mem_append, hop]
      simp
    · rw [writesInto_outer hgt]
      refine ⟨fun h => .inr ⟨Nat.le_of_lt hgt, h⟩, ?_⟩
      rintro (⟨-, h⟩ | ⟨-, h⟩)
      · omega
      · exact h

end

namespace FrameStack

/-! ## The frames that are left -/

/-- The frames of the first levels, the innermost first, with the writes that went into them. -/
def framesOf (past : List StackOperation) (n : Nat) : List Frame :=
  (levels n).map fun level => Frame.ofWrites (writesInto level past)

/-- The stack that the operations leave, the latest of which is given first. -/
def ofHistory (past : List StackOperation) : FrameStack := ⟨framesOf past (depthAfter past)⟩

variable {past : List StackOperation} {op : StackOperation} {n : Nat}

theorem framesOf_succ (past : List StackOperation) (n : Nat) :
    framesOf past (n + 1) = Frame.ofWrites (writesInto (n + 1) past) :: framesOf past n := rfl

@[simp] theorem depth_ofHistory (past : List StackOperation) : (ofHistory past).depth = depthAfter past := by
  have hlength (n : Nat) : (framesOf past n).length = n := by
    induction n with
    | zero => rfl
    | succ n ih => exact congrArg (· + 1) ih
  exact hlength _

/-- An operation writes in none of the frames below the innermost one. -/
theorem framesOf_outer (h : n < depthAfter (op :: past)) : framesOf (op :: past) n = framesOf past n := by
  refine List.map_congr_left fun level hlevel => congrArg Frame.ofWrites (writesInto_outer ?_)
  exact Nat.lt_of_le_of_lt (le_of_mem_levels hlevel) h

theorem framesOf_of_write?_eq_none (hop : op.write? = none) (h : n ≤ depthAfter (op :: past)) :
    framesOf (op :: past) n = framesOf past n := by
  refine List.map_congr_left fun level hlevel => congrArg Frame.ofWrites ?_
  exact writesInto_of_write?_eq_none hop (Nat.le_trans (le_of_mem_levels hlevel) h)

/-- Nothing was written yet in a frame that is put on. -/
theorem framesOf_above (h : depthAfter past = n) :
    framesOf past (n + 1) = Frame.empty :: framesOf past n := by
  rw [framesOf_succ, writesInto_of_lt (by omega)]
  rfl

theorem framesOf_write (w : Write) (h : depthAfter (write w :: past) = n + 1) :
    framesOf (write w :: past) (n + 1) =
      w.apply (Frame.ofWrites (writesInto (n + 1) past)) :: framesOf past n := by
  rw [framesOf_succ, writesInto_innermost h, framesOf_outer (by omega)]
  rfl

@[simp] theorem ofHistory_cons (op : StackOperation) (past : List StackOperation) :
    ofHistory (op :: past) = op.apply (ofHistory past) := by
  unfold ofHistory
  cases op with
  | push =>
    have hdepth : depthAfter (.push :: past) = depthAfter past + 1 := rfl
    rw [framesOf_of_write?_eq_none rfl (Nat.le_refl _), hdepth, framesOf_above rfl]
    rfl
  | pop =>
    have hdepth : depthAfter (.pop :: past) = depthAfter past - 1 := rfl
    rw [framesOf_of_write?_eq_none rfl (Nat.le_refl _), hdepth]
    cases depthAfter past <;> rfl
  | write w =>
    have hdepth : depthAfter (write w :: past) = max (depthAfter past) 1 := rfl
    rw [apply_write]
    cases hpast : depthAfter past with
    | zero =>
      have hone : depthAfter (write w :: past) = 0 + 1 := by omega
      rw [hone, framesOf_write w hone, writesInto_of_lt (by omega)]
      rfl
    | succ n =>
      have hsame : depthAfter (write w :: past) = n + 1 := by omega
      rw [hsame, framesOf_write w hsame, framesOf_succ]
      rfl
  | ensureRoot =>
    have hdepth : depthAfter (.ensureRoot :: past) = max (depthAfter past) 1 := rfl
    rw [framesOf_of_write?_eq_none rfl (Nat.le_refl _), hdepth]
    cases hpast : depthAfter past with
    | zero =>
      change (⟨framesOf past (0 + 1)⟩ : FrameStack) = _
      rw [framesOf_above hpast]
      rfl
    | succ n =>
      rw [Nat.max_eq_left (Nat.succ_pos n)]
      rfl

/-- The stack after the operations, in order. -/
def run (s : FrameStack) (ops : List StackOperation) : FrameStack :=
  ops.foldl (fun s op => op.apply s) s

@[simp] theorem run_append (s : FrameStack) (ops more : List StackOperation) :
    s.run (ops ++ more) = (s.run ops).run more := List.foldl_append

theorem run_empty (ops : List StackOperation) : empty.run ops = ofHistory ops.reverse := by
  have hfold (past : List StackOperation) : past.foldr StackOperation.apply empty = ofHistory past := by
    induction past with
    | nil => rfl
    | cons op past ih => rw [List.foldr_cons, ih, ofHistory_cons]
  exact List.foldl_eq_foldr_reverse.trans (hfold ops.reverse)

/-! ## Names after any operations -/

theorem get_ofHistory (past : List StackOperation) (name : String) :
    (ofHistory past).get name =
      ((levels (depthAfter past)).findSome? fun level =>
        (writesInto level past).findSome? (Write.value? name)).getD .null := by
  rw [get, ofHistory, framesOf, List.findSome?_map]
  congr 2
  funext level
  exact Frame.value?_ofWrites (writesInto level past) name

theorem function?_ofHistory (past : List StackOperation) (name : String) :
    (ofHistory past).function? name =
      (levels (depthAfter past)).findSome? fun level =>
        (writesInto level past).findSome? (Write.function? name) := by
  rw [function?, ofHistory, framesOf, List.findSome?_map]
  congr 1
  funext level
  exact Frame.function?_ofWrites (writesInto level past) name

theorem innermost?_ofHistory (past : List StackOperation) :
    (ofHistory past).innermost? =
      if depthAfter past = 0 then none
      else some (Frame.ofWrites (writesInto (depthAfter past) past)) := by
  rw [innermost?, ofHistory]
  cases depthAfter past <;> rfl

theorem eq_empty_of_depth_eq_zero {s : FrameStack} (h : s.depth = 0) : s = empty := by
  obtain ⟨frames⟩ := s
  obtain rfl : frames = [] := List.eq_nil_of_length_eq_zero h
  rfl

theorem frames_eq_of_innermost? {s : FrameStack} {frame : Frame} (h : s.innermost? = some frame) :
    s.frames = frame :: s.pop.frames := by
  obtain ⟨_ | ⟨f, fs⟩⟩ := s
  · exact nomatch h
  · obtain rfl := Option.some.inj h
    rfl

/-! ## Nested operations -/

/-- Operations of which each frame that is put on is taken off again, and no other one. -/
inductive Nested : List StackOperation → Prop where
  | nil : Nested []
  | write {ops : List StackOperation} (w : Write) : Nested ops → Nested (.write w :: ops)
  | ensureRoot {ops : List StackOperation} : Nested ops → Nested (.ensureRoot :: ops)
  | frame {inner ops : List StackOperation} :
      Nested inner → Nested ops → Nested (.push :: (inner ++ .pop :: ops))

theorem depth_modify_pos (s : FrameStack) (change : Frame → Frame) : 0 < (s.modify change).depth := by
  obtain ⟨_ | ⟨f, fs⟩⟩ := s <;> exact Nat.succ_pos _

/-- On a stack with a frame nested operations change the innermost frame at most. -/
theorem pop_run_of_nested {ops : List StackOperation} (h : Nested ops) {s : FrameStack}
    (hpos : 0 < s.depth) : (s.run ops).pop = s.pop := by
  induction h generalizing s with
  | nil => rfl
  | @write ops w _ ih =>
    change (((StackOperation.write w).apply s).run ops).pop = s.pop
    rw [apply_write, ih (depth_modify_pos s w.apply), pop_modify]
  | @ensureRoot ops _ ih =>
    change (s.ensureRoot.run ops).pop = s.pop
    rw [ensureRoot_of_depth_pos hpos]
    exact ih hpos
  | @frame inner ops _ _ ihinner ih =>
    -- The frame that is put on makes the stack deep enough, and it is gone after its own operations.
    have hinner : (s.push.run inner).pop = s := ihinner (Nat.succ_pos _)
    change (s.push.run (inner ++ .pop :: ops)).pop = s.pop
    rw [run_append]
    change ((s.push.run inner).pop.run ops).pop = s.pop
    rw [hinner]
    exact ih hpos

/-- Nested operations between a frame that is put on and taken off leave nothing behind. -/
theorem run_frame {ops : List StackOperation} (h : Nested ops) (s : FrameStack) :
    s.run (.push :: (ops ++ [.pop])) = s := by
  change s.push.run (ops ++ [.pop]) = s
  rw [run_append]
  exact pop_run_of_nested h (Nat.succ_pos _)

/-! ## The law of lookups -/

theorem depth_run_empty (ops : List StackOperation) :
    (empty.run ops).depth = depthAfter ops.reverse := by
  rw [run_empty, depth_ofHistory]

/-- Which writes went into the frames that are left, told in the order of the operations. -/
theorem mem_writesInto_reverse_iff {level : Nat} {w : Write} {ops : List StackOperation} :
    w ∈ writesInto level ops.reverse ↔
      ∃ earlier later, ops = earlier ++ .write w :: later ∧
        (empty.run (earlier ++ [.write w])).depth = level ∧
          ∀ since, since <+: later → level ≤ (empty.run (earlier ++ .write w :: since)).depth := by
  simp only [mem_writesInto_iff, depth_run_empty, List.reverse_append, List.reverse_cons,
    List.append_assoc]
  constructor
  · rintro ⟨later, earlier, hops, hlevel, hsince⟩
    refine ⟨earlier.reverse, later.reverse, ?_, ?_, fun since h => ?_⟩
    · simpa using congrArg List.reverse hops
    · simpa using hlevel
    · have hsuffix : since.reverse <:+ later := by
        rwa [← List.reverse_prefix, List.reverse_reverse]
      simpa using hsince since.reverse hsuffix
  · rintro ⟨earlier, later, rfl, hlevel, hsince⟩
    refine ⟨later.reverse, earlier.reverse, by simp, by simpa using hlevel, fun since h => ?_⟩
    have hprefix : since.reverse <+: later := by
      rwa [← List.reverse_suffix, List.reverse_reverse]
    simpa using hsince since.reverse hprefix

/-- After any operations on a stack that was empty a variable has the value that was last written into
the innermost of the frames that are left and have a value for it, and null if there is none; functions
are found likewise. A write without frames goes into a new frame, a frame that is taken off has the
latest write of each name into it and no other name, and what is done in a frame that is put on and
taken off again leaves the stack as it was. -/
theorem run_operations (ops : List StackOperation) :
    let s := empty.run ops
    let writes := fun level => writesInto level ops.reverse
    (∀ level w, w ∈ writes level ↔ ∃ earlier later, ops = earlier ++ .write w :: later ∧
      (empty.run (earlier ++ [.write w])).depth = level ∧
        ∀ since, since <+: later → level ≤ (empty.run (earlier ++ .write w :: since)).depth) ∧
      (∀ name, s.get name = ((levels s.depth).findSome? fun level =>
        (writes level).findSome? (Write.value? name)).getD .null) ∧
      (∀ name, s.function? name = (levels s.depth).findSome? fun level =>
        (writes level).findSome? (Write.function? name)) ∧
      (s.depth = 0 → s.innermost? = none ∧ s.pop = s ∧
        ∀ w, (StackOperation.write w).apply s = ⟨[w.apply Frame.empty]⟩) ∧
      (0 < s.depth → ∃ frame, s.innermost? = some frame ∧ s.frames = frame :: s.pop.frames ∧
        (∀ name, frame.value? name = (writes s.depth).findSome? (Write.value? name)) ∧
        ∀ name, frame.function? name = (writes s.depth).findSome? (Write.function? name)) ∧
      ∀ inner, Nested inner → s.run (.push :: (inner ++ [.pop])) = s := by
  intro s writes
  have hdepth : s.depth = depthAfter ops.reverse := depth_run_empty ops
  have hs : s = ofHistory ops.reverse := run_empty ops
  refine ⟨fun level w => mem_writesInto_reverse_iff, fun name => ?_, fun name => ?_, fun hzero => ?_,
    fun hpos => ?_, fun inner h => run_frame h s⟩
  · rw [hdepth, hs, get_ofHistory]
  · rw [hdepth, hs, function?_ofHistory]
  · rw [eq_empty_of_depth_eq_zero hzero]
    exact ⟨rfl, rfl, fun w => apply_write w empty⟩
  · have hsome : s.innermost? = some (Frame.ofWrites (writes s.depth)) := by
      rw [hs, innermost?_ofHistory, if_neg (by omega), ← hs, hdepth]
    refine ⟨_, hsome, frames_eq_of_innermost? hsome, fun name => ?_, fun name => ?_⟩
    · exact Frame.value?_ofWrites (writes s.depth) name
    · exact Frame.function?_ofWrites (writes s.depth) name

/-- Two of the pops take off what no push has put on, so two of the writes find no frame. -/
def unmatched : List StackOperation :=
  [.pop, .write (.variable "x" (.boolean true)), .push, .write (.variable "x" .null), .pop, .pop,
    .write (.variable "x" (.boolean false)), .push, .write (.function ⟨"f", [], []⟩), .push]

/-- Of the three values of the variable only the last one is in a frame that is left. -/
theorem run_operations_unmatched :
    let s := empty.run unmatched
    s.depth = 3 ∧ s.get "x" = .boolean false ∧ (s.function? "f").isSome ∧
      (∃ frame, s.pop.innermost? = some frame ∧ frame.value? "x" = none ∧
        (frame.function? "f").isSome) ∧
      Nested [.push, .write (.variable "x" .null), .pop] ∧
      s.run [.push, .push, .write (.variable "x" .null), .pop, .pop] = s := by
  intro s
  have hdepth : s.depth = 3 := by decide
  obtain ⟨-, hget, hfunction, -, -, hframe⟩ := run_operations unmatched
  have hnested : Nested [.push, .write (.variable "x" .null), .pop] := .frame (.write _ .nil) .nil
  obtain ⟨-, -, -, -, hinnermost, -⟩ := run_operations (unmatched ++ [.pop])
  obtain ⟨frame, hinner, -, hvalue, hdeclared⟩ := hinnermost (by decide)
  refine ⟨hdepth, ?_, ?_, ⟨frame, hinner, ?_, ?_⟩, hnested, hframe _ hnested⟩
  · rw [hget "x"]
    decide
  · rw [hfunction "f"]
    decide
  · rw [hvalue "x"]
    decide
  · rw [hdeclared "f"]
    decide

end FrameStack

end CommandScript
