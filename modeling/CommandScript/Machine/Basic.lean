import CommandScript.Journal

/-!
The machine that runs scripts: the frames, the state of the host, and a journal if one is kept. An
action on it goes on from the state in which it fails.
-/

namespace CommandScript
set_option autoImplicit false

/-- The journal, where one is kept, has the latest event first. -/
structure Machine (σ : Type) where
  frames : FrameStack
  host : σ
  journal : Option (List Event)

namespace Machine

variable {σ : Type}

/-- A machine without frames. -/
def start (host : σ) (journal : Option (List Event)) : Machine σ := ⟨.empty, host, journal⟩

def note (e : Event) (m : Machine σ) : Machine σ := { m with journal := m.journal.map (e :: ·) }

def depth (m : Machine σ) : Nat := m.frames.depth

/-! ## Frames -/

def push (m : Machine σ) : Machine σ :=
  { m with frames := m.frames.push }.note (.pushed (m.depth + 1))

def pop (m : Machine σ) : Machine σ :=
  { m with frames := m.frames.pop }.note (.popped m.depth)

def ensureRoot (m : Machine σ) : Machine σ :=
  match m.frames.frames with
  | [] => m.push
  | _ :: _ => m

def set (name : String) (v : Value) (m : Machine σ) : Machine σ :=
  let m := (m.note (.set name v)).ensureRoot
  { m with frames := m.frames.set name v }

def declare (f : Function) (m : Machine σ) : Machine σ :=
  let m := (m.note (.declared f)).ensureRoot
  { m with frames := m.frames.declare f }

@[simp] theorem frames_note (e : Event) (m : Machine σ) : (m.note e).frames = m.frames := rfl

@[simp] theorem frames_push (m : Machine σ) : m.push.frames = m.frames.push := rfl

@[simp] theorem frames_pop (m : Machine σ) : m.pop.frames = m.frames.pop := rfl

@[simp] theorem frames_ensureRoot (m : Machine σ) : m.ensureRoot.frames = m.frames.ensureRoot := by
  obtain ⟨⟨_ | ⟨f, fs⟩⟩, host, journal⟩ := m <;> rfl

@[simp] theorem frames_set (name : String) (v : Value) (m : Machine σ) :
    (m.set name v).frames = m.frames.set name v := by
  obtain ⟨⟨_ | ⟨f, fs⟩⟩, host, journal⟩ := m <;> rfl

@[simp] theorem frames_declare (f : Function) (m : Machine σ) :
    (m.declare f).frames = m.frames.declare f := by
  obtain ⟨⟨_ | ⟨g, fs⟩⟩, host, journal⟩ := m <;> rfl

end Machine

/-! ## Actions -/

/-- An action on a machine, which may fail. -/
abbrev Action (σ α : Type) := ExceptT RuntimeError (StateM (Machine σ)) α

namespace Action

variable {σ α : Type}

def fail (f : Failure) : Action σ α := fun m => (.error (.ofFailure f), m)

def ofExcept (r : Except Failure α) : Action σ α :=
  fun m => (r.mapError RuntimeError.ofFailure, m)

def change (f : Machine σ → Machine σ) : Action σ Unit := fun m => (.ok (), f m)

def get (name : String) : Action σ Value :=
  fun m => (.ok (m.frames.get name), m.note (.got name))

def function? (name : String) : Action σ (Option Function) :=
  fun m => (.ok (m.frames.function? name), m.note (.soughtFunction name))

/-- Runs an action in a new frame, which is gone afterwards, also if the action fails. -/
def inNewFrame (act : Action σ α) : Action σ α := fun m =>
  let r := act m.push
  (r.1, r.2.pop)

/-- Binds the values and runs the body of a command, with the arguments in the journal. -/
def invoke (c : Command σ) (values : List Value) : Action σ Unit := fun m =>
  match c.bind values with
  | .error f => (.error (.ofFailure f), m)
  | .ok args =>
    let r := c.perform args m.host
    (r.1.mapError RuntimeError.ofFailure, { m.note (.invoked c.name args) with host := r.2 })

end Action

end CommandScript
