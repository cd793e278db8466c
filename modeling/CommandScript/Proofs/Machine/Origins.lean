import CommandScript.Proofs.Machine.Invocations
import CommandScript.Proofs.Moved

/-!
Running statements that may stand anywhere. Some statements have fixed places, others stand in a
source that may be moved down. What a run does depends on these places in two ways only: the trace of
an error names lines, and functions are stored with the places in their bodies. Both are
marked here, so that one state and one error stand for those of all the places.
-/

namespace CommandScript
set_option autoImplicit false

variable {σ : Type}

/-! ## What moves -/

/-- Whether something stands in the source that may be moved down. -/
inductive Origin where
  | fixed
  | moving

/-- How far down it is moved where that source is moved down by `k` lines. -/
def Origin.lines (k : Nat) : Origin → Nat
  | fixed => 0
  | moving => k

structure Traced (α : Type) where
  origin : Origin
  value : α

namespace Traced

variable (k : Nat)

def line (n : Traced Nat) : Nat := n.value + n.origin.lines k

def statement (s : Traced Statement) : Statement := s.value.down (s.origin.lines k)

def function (f : Traced Function) : Function := f.value.down (f.origin.lines k)

end Traced

/-- What the names in a frame mean. -/
@[ext] structure Names where
  values : String → Option Value
  functions : String → Option Function

def Frame.names (f : Frame) : Names := ⟨f.value?, f.function?⟩

structure TracedNames where
  values : String → Option Value
  functions : String → Option (Traced Function)

namespace TracedNames

def empty : TracedNames := ⟨fun _ => none, fun _ => none⟩

def set (name : String) (v : Value) (f : TracedNames) : TracedNames :=
  { f with values := fun x => if name = x then some v else f.values x }

def declare (fn : Traced Function) (f : TracedNames) : TracedNames :=
  { f with functions := fun x => if fn.value.name = x then some fn else f.functions x }

def names (k : Nat) (f : TracedNames) : Names :=
  ⟨f.values, fun x => (f.functions x).map (Traced.function k)⟩

end TracedNames

/-- The state of a machine, places aside, and which functions move. -/
structure TracedState (σ : Type) where
  frames : List TracedNames
  host : σ
  calls : Option (List CommandCall)

structure TracedError where
  failure : Failure
  trace : List (Traced Nat)

namespace TracedError

def error (k : Nat) (e : TracedError) : RuntimeError := ⟨e.failure, e.trace.map (Traced.line k)⟩

def ofFailure (f : Failure) : TracedError := ⟨f, []⟩

def atLine (line : Traced Nat) (e : TracedError) : TracedError :=
  { e with trace := e.trace ++ [line] }

theorem error_atLine (k : Nat) (line : Traced Nat) (e : TracedError) :
    (e.atLine line).error k = (e.error k).atLine (line.line k) := by
  simp [atLine, error, RuntimeError.atLine]

end TracedError

namespace TracedState

/-- The machine is in this state if the source that moves is moved down by `k` lines. -/
structure Shown (k : Nat) (w : TracedState σ) (m : Machine σ) : Prop where
  frames : m.frames.frames.map Frame.names = w.frames.map (TracedNames.names k)
  host : m.host = w.host
  journal : m.journal.map invocations = w.calls

def push (w : TracedState σ) : TracedState σ := { w with frames := TracedNames.empty :: w.frames }

def pop (w : TracedState σ) : TracedState σ := { w with frames := w.frames.tail }

def ensureRoot (w : TracedState σ) : TracedState σ :=
  match w.frames with
  | [] => w.push
  | _ :: _ => w

def modify (change : TracedNames → TracedNames) (w : TracedState σ) : TracedState σ :=
  match w.ensureRoot.frames with
  | [] => w
  | f :: fs => { w with frames := change f :: fs }

variable {k : Nat} {w : TracedState σ} {m : Machine σ}

theorem Shown.depth (h : w.Shown k m) : m.depth = w.frames.length := by
  have hlength := congrArg List.length h.frames
  rwa [List.length_map, List.length_map] at hlength

theorem Shown.note (h : w.Shown k m) {e : Event} (he : e.invocation? = none) :
    w.Shown k (m.note e) :=
  ⟨h.frames, h.host, (invocations_note he m).trans h.journal⟩

theorem names_empty (k : Nat) : Frame.empty.names = TracedNames.empty.names k := by
  apply Names.ext
  · funext x
    exact Frame.value?_empty x
  · funext x
    exact Frame.function?_empty x

theorem Shown.push (h : w.Shown k m) : w.push.Shown k m.push := by
  refine ⟨?_, h.host, (invocations_note rfl _).trans h.journal⟩
  change Frame.empty.names :: m.frames.frames.map Frame.names = _
  rw [names_empty k, h.frames]
  rfl

theorem Shown.pop (h : w.Shown k m) : w.pop.Shown k m.pop := by
  refine ⟨?_, h.host, (invocations_note rfl _).trans h.journal⟩
  rw [Machine.frames_pop]
  have hframes := congrArg List.tail h.frames
  rwa [← List.map_tail, ← List.map_tail] at hframes

theorem Shown.ensureRoot (h : w.Shown k m) : w.ensureRoot.Shown k m.ensureRoot := by
  obtain ⟨wframes, whost, wcalls⟩ := w
  obtain ⟨⟨frames⟩, host, journal⟩ := m
  have hlength := h.depth
  cases frames with
  | nil =>
    cases wframes with
    | nil => exact h.push
    | cons g gs => exact nomatch hlength
  | cons f fs =>
    cases wframes with
    | nil => exact nomatch hlength
    | cons g gs => exact h

/-- The innermost frames change alike. -/
theorem Shown.map_modify {change : Frame → Frame} {change' : TracedNames → TracedNames}
    (h : w.Shown k m)
    (hchange : ∀ f g, f.names = TracedNames.names k g →
      (change f).names = TracedNames.names k (change' g)) :
    (m.frames.modify change).frames.map Frame.names =
      (w.modify change').frames.map (TracedNames.names k) := by
  obtain ⟨wframes, whost, wcalls⟩ := w
  obtain ⟨⟨frames⟩, host, journal⟩ := m
  have hframes := h.frames
  cases frames with
  | nil =>
    cases wframes with
    | nil => exact congrArg (fun x => [x]) (hchange _ _ (names_empty k))
    | cons g gs => exact nomatch hframes
  | cons f fs =>
    cases wframes with
    | nil => exact nomatch hframes
    | cons g gs =>
      obtain ⟨hinner, houter⟩ := List.cons.inj hframes
      change (change f).names :: fs.map Frame.names = _
      rw [hchange f g hinner, houter]
      rfl

def set (name : String) (v : Value) (w : TracedState σ) : TracedState σ := w.modify (·.set name v)

def declare (f : Traced Function) (w : TracedState σ) : TracedState σ := w.modify (·.declare f)

theorem modify_rest (change : TracedNames → TracedNames) (w : TracedState σ) :
    (w.modify change).host = w.host ∧ (w.modify change).calls = w.calls := by
  unfold modify
  split <;> exact ⟨rfl, rfl⟩

theorem Shown.set (h : w.Shown k m) (name : String) (v : Value) :
    (w.set name v).Shown k (m.set name v) := by
  have hnames (f : Frame) (g : TracedNames) (hfg : f.names = g.names k) :
      (f.set name v).names = (g.set name v).names k := by
    apply Names.ext
    · funext x
      have hx : f.value? x = g.values x := congrFun (congrArg Names.values hfg) x
      change (f.set name v).value? x = if name = x then some v else g.values x
      rw [Frame.value?_set, hx]
    · have hfunctions : f.names.functions = (g.names k).functions := congrArg Names.functions hfg
      exact hfunctions
  refine ⟨?_, ?_, ?_⟩
  · rw [Machine.frames_set]
    exact h.map_modify hnames
  · rw [Machine.host_set, h.host]
    exact (modify_rest _ w).1.symm
  · rw [invocations_set, h.journal]
    exact (modify_rest _ w).2.symm

theorem Shown.declare (h : w.Shown k m) (f : Traced Function) :
    (w.declare f).Shown k (m.declare (f.function k)) := by
  have hnames (g : Frame) (g' : TracedNames) (hg : g.names = g'.names k) :
      (g.declare (f.function k)).names = (g'.declare f).names k := by
    apply Names.ext
    · have hvalues : g.names.values = (g'.names k).values := congrArg Names.values hg
      exact hvalues
    · funext x
      have hx := congrFun (congrArg Names.functions hg) x
      change (g.declare (f.function k)).function? x =
        (if f.value.name = x then some f else g'.functions x).map (Traced.function k)
      rw [Frame.function?_declare]
      change (if f.value.name = x then _ else _) = _
      split
      · rfl
      · exact hx
  refine ⟨?_, ?_, ?_⟩
  · rw [Machine.frames_declare]
    exact h.map_modify hnames
  · rw [Machine.host_declare, h.host]
    exact (modify_rest _ w).1.symm
  · rw [invocations_declare, h.journal]
    exact (modify_rest _ w).2.symm

/-! ### What names mean -/

def get (name : String) (w : TracedState σ) : Value :=
  (w.frames.findSome? (·.values name)).getD .null

def function? (name : String) (w : TracedState σ) : Option (Traced Function) :=
  w.frames.findSome? (·.functions name)

theorem Shown.get (h : w.Shown k m) (name : String) : m.frames.get name = w.get name := by
  have hvalues := congrArg (List.findSome? fun f => f.values name) h.frames
  rw [List.findSome?_map, List.findSome?_map] at hvalues
  exact congrArg (·.getD .null) hvalues

theorem Shown.function? (h : w.Shown k m) (name : String) :
    m.frames.function? name = (w.function? name).map (Traced.function k) := by
  have hfunctions := congrArg (List.findSome? fun f => f.functions name) h.frames
  rw [List.findSome?_map, List.findSome?_map] at hfunctions
  exact hfunctions.trans (List.map_findSome? ..).symm

end TracedState

end CommandScript
