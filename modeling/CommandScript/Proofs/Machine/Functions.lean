import CommandScript.Frames

/-!
The functions that a stack stores, in whichever of its frames and under whichever name. Only a
declaration adds to them, and there are finitely many, so any measure of them has a bound.
-/

namespace CommandScript
set_option autoImplicit false

namespace FrameStack

/-- Some frame of the stack knows the function by some name. -/
def Stores (s : FrameStack) (f : Function) : Prop :=
  ∃ frame ∈ s.frames, ∃ name, frame.function? name = some f

/-! ## What is stored -/

@[simp] theorem not_stores_empty (f : Function) : ¬empty.Stores f := by
  rintro ⟨frame, hframe, -⟩
  exact nomatch hframe

theorem stores_cons_iff {frame : Frame} {frames : List Frame} {f : Function} :
    Stores ⟨frame :: frames⟩ f ↔ (∃ name, frame.function? name = some f) ∨ Stores ⟨frames⟩ f := by
  simp only [Stores, List.mem_cons, exists_eq_or_imp]

@[simp] theorem stores_push_iff {s : FrameStack} {f : Function} : s.push.Stores f ↔ s.Stores f := by
  obtain ⟨frames⟩ := s
  have hnone : ¬∃ name, Frame.empty.function? name = some f := by
    rintro ⟨name, h⟩
    rw [Frame.function?_empty] at h
    exact nomatch h
  rw [push, stores_cons_iff]
  exact or_iff_right hnone

@[simp] theorem stores_ensureRoot_iff {s : FrameStack} {f : Function} :
    s.ensureRoot.Stores f ↔ s.Stores f := by
  obtain ⟨_ | ⟨frame, frames⟩⟩ := s
  · exact stores_push_iff
  · rfl

theorem modify_eq (change : Frame → Frame) (s : FrameStack) :
    ∃ frame frames, s.ensureRoot = ⟨frame :: frames⟩ ∧ s.modify change = ⟨change frame :: frames⟩ := by
  obtain ⟨_ | ⟨frame, frames⟩⟩ := s
  · exact ⟨_, _, rfl, rfl⟩
  · exact ⟨_, _, rfl, rfl⟩

@[simp] theorem stores_set_iff {s : FrameStack} {name : String} {v : Value} {f : Function} :
    (s.set name v).Stores f ↔ s.Stores f := by
  obtain ⟨frame, frames, hroot, hset⟩ := modify_eq (·.set name v) s
  have hs : s.Stores f ↔ Stores ⟨frame :: frames⟩ f := hroot ▸ stores_ensureRoot_iff.symm
  rw [set, hset, hs, stores_cons_iff, stores_cons_iff]
  rfl

theorem eq_or_stores_of_declare {s : FrameStack} {declared f : Function}
    (h : (s.declare declared).Stores f) : f = declared ∨ s.Stores f := by
  obtain ⟨frame, frames, hroot, hdeclare⟩ := modify_eq (·.declare declared) s
  rw [declare, hdeclare, stores_cons_iff] at h
  rw [← stores_ensureRoot_iff, hroot, stores_cons_iff]
  rcases h with ⟨name, h⟩ | h
  · rw [Frame.function?_declare] at h
    split at h
    · exact .inl (Option.some.inj h).symm
    · exact .inr (.inl ⟨name, h⟩)
  · exact .inr (.inr h)

theorem stores_of_function? {s : FrameStack} {name : String} {f : Function}
    (h : s.function? name = some f) : s.Stores f := by
  obtain ⟨frame, hframe, hf⟩ := List.exists_of_findSome?_eq_some h
  exact ⟨frame, hframe, name, hf⟩

/-! ## Functions that stay -/

/-- Every name means the same function on both stacks, and the second one stores no other functions than
the first one. -/
structure SameFunctions (s s' : FrameStack) : Prop where
  named : ∀ name, s'.function? name = s.function? name
  stored : ∀ f, s'.Stores f → s.Stores f

namespace SameFunctions

variable {s s' s'' : FrameStack}

theorem refl (s : FrameStack) : SameFunctions s s := ⟨fun _ => rfl, fun _ h => h⟩

theorem trans (h : SameFunctions s s') (h' : SameFunctions s' s'') : SameFunctions s s'' :=
  ⟨fun name => (h'.named name).trans (h.named name), fun f hf => h.stored f (h'.stored f hf)⟩

theorem push (s : FrameStack) : SameFunctions s s.push :=
  ⟨function?_push s, fun _ => stores_push_iff.mp⟩

theorem set (name : String) (v : Value) (s : FrameStack) : SameFunctions s (s.set name v) :=
  ⟨fun x => function?_set s name x v, fun _ => stores_set_iff.mp⟩

end SameFunctions

/-! ## A bound for all that is stored -/

theorem exists_bound_of_list {α : Type} (measure : α → Nat) (as : List α) :
    ∃ n, ∀ a ∈ as, measure a ≤ n := by
  induction as with
  | nil => exact ⟨0, nofun⟩
  | cons a as ih =>
    obtain ⟨n, hn⟩ := ih
    refine ⟨max (measure a) n, List.forall_mem_cons.mpr ⟨Nat.le_max_left _ _, fun b hb => ?_⟩⟩
    exact Nat.le_trans (hn b hb) (Nat.le_max_right _ _)

theorem exists_bound_of_frame (measure : Function → Nat) (frame : Frame) :
    ∃ n, ∀ name f, frame.function? name = some f → measure f ≤ n := by
  obtain ⟨n, hn⟩ := exists_bound_of_list (fun entry => measure entry.2) frame.functions.toList
  refine ⟨n, fun name f h => hn (name, f) ?_⟩
  exact Std.TreeMap.mem_toList_iff_getElem?_eq_some.mpr h

theorem exists_bound (measure : Function → Nat) (s : FrameStack) :
    ∃ n, ∀ f, s.Stores f → measure f ≤ n := by
  obtain ⟨frames⟩ := s
  induction frames with
  | nil => exact ⟨0, fun f h => absurd h (not_stores_empty f)⟩
  | cons frame frames ih =>
    obtain ⟨n, hn⟩ := ih
    obtain ⟨inner, hinner⟩ := exists_bound_of_frame measure frame
    refine ⟨max inner n, fun f h => ?_⟩
    rcases stores_cons_iff.mp h with ⟨name, hf⟩ | hf
    · exact Nat.le_trans (hinner name f hf) (Nat.le_max_left _ _)
    · exact Nat.le_trans (hn f hf) (Nat.le_max_right _ _)

end FrameStack

end CommandScript
