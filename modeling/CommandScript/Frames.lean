import CommandScript.Statement.Basic
import CommandScript.Value
import Std.Data.TreeMap.Lemmas

/-!
Frames. Each holds the variables and functions of one run or call; they are stacked, the innermost
first. A name means what the innermost frame that knows it says, and only the innermost frame is
written to. The main statements say what each change of a stack does to the meaning of a name.
-/

namespace CommandScript
set_option autoImplicit false

/-- A function of a script. -/
structure Function where
  name : String
  params : List Parameter
  body : List Statement

namespace Function

def arity (f : Function) : Nat := f.params.length

/-- The head of the declaration of the function. -/
def head (f : Function) : String := signature f.name f.params

end Function

structure Frame where
  values : Std.TreeMap String Value
  functions : Std.TreeMap String Function

namespace Frame

def empty : Frame := ⟨∅, ∅⟩

def value? (f : Frame) (name : String) : Option Value := f.values.get? name

def function? (f : Frame) (name : String) : Option Function := f.functions.get? name

def set (f : Frame) (name : String) (v : Value) : Frame :=
  { f with values := f.values.insert name v }

def declare (f : Frame) (fn : Function) : Frame :=
  { f with functions := f.functions.insert fn.name fn }

/-! ## Names in a frame -/

@[simp] theorem value?_empty (name : String) : empty.value? name = none := by simp [empty, value?]

@[simp] theorem function?_empty (name : String) : empty.function? name = none := by
  simp [empty, function?]

@[simp] theorem value?_set (f : Frame) (written name : String) (v : Value) :
    (f.set written v).value? name = if written = name then some v else f.value? name := by
  simp [set, value?, Std.TreeMap.getElem?_insert]

@[simp] theorem function?_set (f : Frame) (written name : String) (v : Value) :
    (f.set written v).function? name = f.function? name := rfl

@[simp] theorem value?_declare (f : Frame) (fn : Function) (name : String) :
    (f.declare fn).value? name = f.value? name := rfl

@[simp] theorem function?_declare (f : Frame) (fn : Function) (name : String) :
    (f.declare fn).function? name = if fn.name = name then some fn else f.function? name := by
  simp [declare, function?, Std.TreeMap.getElem?_insert]

end Frame

structure FrameStack where
  frames : List Frame

namespace FrameStack

def empty : FrameStack := ⟨[]⟩

def depth (s : FrameStack) : Nat := s.frames.length

def push (s : FrameStack) : FrameStack := ⟨Frame.empty :: s.frames⟩

def pop (s : FrameStack) : FrameStack := ⟨s.frames.tail⟩

def innermost? (s : FrameStack) : Option Frame := s.frames.head?

/-- The stack with a frame in it, a new one if there was none. -/
def ensureRoot (s : FrameStack) : FrameStack :=
  match s.frames with
  | [] => s.push
  | _ :: _ => s

/-- Changes the innermost frame, a new one if there was none. -/
def modify (change : Frame → Frame) (s : FrameStack) : FrameStack :=
  match s.ensureRoot.frames with
  | [] => s
  | f :: fs => ⟨change f :: fs⟩

def set (name : String) (v : Value) (s : FrameStack) : FrameStack := s.modify (·.set name v)

def declare (fn : Function) (s : FrameStack) : FrameStack := s.modify (·.declare fn)

/-- The value of a variable, null if no frame knows it. -/
def get (name : String) (s : FrameStack) : Value :=
  (s.frames.findSome? (·.value? name)).getD .null

def function? (name : String) (s : FrameStack) : Option Function :=
  s.frames.findSome? (·.function? name)

/-! ## The shape of a stack -/

@[simp] theorem depth_push (s : FrameStack) : s.push.depth = s.depth + 1 := rfl

@[simp] theorem pop_push (s : FrameStack) : s.push.pop = s := rfl

@[simp] theorem depth_pop (s : FrameStack) : s.pop.depth = s.depth - 1 := by
  simp [pop, depth]

theorem ensureRoot_of_depth_pos {s : FrameStack} (h : 0 < s.depth) : s.ensureRoot = s := by
  obtain ⟨_ | ⟨f, fs⟩⟩ := s
  · exact absurd h (Nat.lt_irrefl 0)
  · rfl

/-- Only the innermost frame changes. -/
@[simp] theorem pop_modify (s : FrameStack) (change : Frame → Frame) : (s.modify change).pop = s.pop := by
  obtain ⟨_ | ⟨f, fs⟩⟩ := s <;> rfl

/-! ## Names in a stack -/

@[simp] theorem get_push (s : FrameStack) (name : String) : s.push.get name = s.get name := by
  simp [push, get]

@[simp] theorem function?_push (s : FrameStack) (name : String) :
    s.push.function? name = s.function? name := by
  simp [push, function?]

@[simp] theorem get_set (s : FrameStack) (written name : String) (v : Value) :
    (s.set written v).get name = if written = name then v else s.get name := by
  obtain ⟨_ | ⟨f, fs⟩⟩ := s <;> by_cases h : written = name <;>
    simp [set, modify, ensureRoot, push, get, List.findSome?_cons, h]

@[simp] theorem function?_set (s : FrameStack) (written name : String) (v : Value) :
    (s.set written v).function? name = s.function? name := by
  obtain ⟨_ | ⟨f, fs⟩⟩ := s <;>
    simp [set, modify, ensureRoot, push, function?, List.findSome?_cons]

@[simp] theorem get_declare (s : FrameStack) (fn : Function) (name : String) :
    (s.declare fn).get name = s.get name := by
  obtain ⟨_ | ⟨f, fs⟩⟩ := s <;>
    simp [declare, modify, ensureRoot, push, get, List.findSome?_cons]

@[simp] theorem function?_declare (s : FrameStack) (fn : Function) (name : String) :
    (s.declare fn).function? name = if fn.name = name then some fn else s.function? name := by
  obtain ⟨_ | ⟨f, fs⟩⟩ := s <;> by_cases h : fn.name = name <;>
    simp [declare, modify, ensureRoot, push, function?, List.findSome?_cons, h]

end FrameStack

end CommandScript
