import CommandScript.Proofs.Machine.Functions
import CommandScript.Proofs.Machine.StackDiscipline
import CommandScript.Proofs.Statement.Parts

/-!
What an expression can change. Calls work in frames of their own, whatever the called functions assign
or declare; so all that an expression leaves behind is what its own assignments wrote. The main
statement is that evaluation, however it ends, changes variables of the innermost frame only, those
that the expression assigns, and that a call whose arguments assign nothing changes nothing at all.
-/

namespace CommandScript
set_option autoImplicit false

variable {σ : Type}

/-! ## Assignments in an expression -/

namespace Expr

/-- An assignment to the variable is among the parts of the expression. -/
def Assigns (e : Expr) (name : String) : Prop := ∃ value, .assign name value ∈ e.parts

theorem assigns_assign_iff {name x : String} {value : Expr} :
    (assign name value).Assigns x ↔ x = name ∨ value.Assigns x := by
  simp [Assigns, parts, exists_or]

theorem assigns_negate_iff {e : Expr} {x : String} : (negate e).Assigns x ↔ e.Assigns x := by
  simp [Assigns, parts]

theorem assigns_binary_iff {left right : Expr} {op : Operator} {x : String} :
    (binary left op right).Assigns x ↔ left.Assigns x ∨ right.Assigns x := by
  simp [Assigns, parts, exists_or]

theorem assigns_call_iff {name x : String} {args : List Expr} :
    (call name args).Assigns x ↔ ∃ arg ∈ args, arg.Assigns x := by
  simp only [Assigns, parts, List.mem_cons, reduceCtorEq, false_or, mem_partsOfAll_iff]
  constructor
  · rintro ⟨value, arg, harg, h⟩
    exact ⟨arg, harg, value, h⟩
  · rintro ⟨arg, harg, value, h⟩
    exact ⟨value, arg, harg, h⟩

mutual

theorem assigned_iff (e : Expr) (x : String) : e.assigned x ↔ e.Assigns x := by
  cases e with
  | literal value => simp [assigned, Assigns, parts]
  | «variable» name => simp [assigned, Assigns, parts]
  | assign name value => simp only [assigned, assigns_assign_iff, assigned_iff value x]
  | negate e => rw [assigned, assigns_negate_iff, assigned_iff e x]
  | binary left op right =>
    simp only [assigned, assigns_binary_iff, assigned_iff left x, assigned_iff right x]
  | call name args => rw [assigned, assigns_call_iff, assignedByAny_iff args x]

theorem assignedByAny_iff (es : List Expr) (x : String) :
    assignedByAny es x ↔ ∃ e ∈ es, e.Assigns x := by
  cases es with
  | nil => simp [assignedByAny]
  | cons e es => simp [assignedByAny, assigned_iff e x, assignedByAny_iff es x]

end

end Expr

/-! ## Stacks that differ in variables -/

namespace FrameStack

/-- The second stack is the first one, but for variables of `written` in its innermost frame. -/
def SameBut (written : String → Prop) (s s' : FrameStack) : Prop :=
  ∃ frame values outer, s.frames = frame :: outer ∧
    s'.frames = { frame with values := values } :: outer ∧
    ∀ name, ¬written name → values.get? name = frame.values.get? name

namespace SameBut

variable {written : String → Prop} {s s' s'' : FrameStack}

theorem refl (h : 0 < s.depth) : SameBut written s s := by
  obtain ⟨_ | ⟨frame, outer⟩⟩ := s
  · exact absurd h (Nat.lt_irrefl 0)
  · exact ⟨frame, frame.values, outer, rfl, rfl, fun _ _ => rfl⟩

theorem depth (h : SameBut written s s') : s'.depth = s.depth := by
  obtain ⟨frame, values, outer, hs, hs', -⟩ := h
  rw [FrameStack.depth, FrameStack.depth, hs, hs', List.length_cons, List.length_cons]

theorem trans (h : SameBut written s s') (h' : SameBut written s' s'') :
    SameBut written s s'' := by
  obtain ⟨frame, values, outer, hs, hs', hvalues⟩ := h
  obtain ⟨frame', values', outer', ht, ht', hvalues'⟩ := h'
  obtain ⟨rfl, rfl⟩ := List.cons_eq_cons.mp (hs'.symm.trans ht)
  exact ⟨frame, values', outer, hs, ht', fun name hname =>
    (hvalues' name hname).trans (hvalues name hname)⟩

theorem set {name : String} (hname : written name) (v : Value) (h : 0 < s.depth) :
    SameBut written s (s.set name v) := by
  obtain ⟨_ | ⟨frame, outer⟩⟩ := s
  · exact absurd h (Nat.lt_irrefl 0)
  refine ⟨frame, frame.values.insert name v, outer, rfl, rfl, fun x hx => ?_⟩
  have hne : name ≠ x := fun heq => hx (heq ▸ hname)
  have hset := frame.value?_set name x v
  rw [if_neg hne] at hset
  exact hset

end SameBut

end FrameStack

open FrameStack (SameBut SameFunctions)

/-! ## Moves without declarations -/

namespace Machine

variable {written : String → Prop} {declares : Prop} {m m' : Machine σ}

theorem Moves.sameBut (h : Moves written declares m m') :
    ¬declares → 0 < m.depth → SameBut written m.frames m'.frames := by
  induction h with
  | stay m | note e m | host h m => exact fun _ hpos => .refl hpos
  | set name v m hname =>
    intro _ hpos
    rw [frames_set]
    exact .set hname v hpos
  | declare f m hdeclares => exact fun hnot => absurd hdeclares hnot
  | @frame written declares m m' h ih =>
    -- A call may declare, but in its own frame; so the moves in it count for nothing.
    intro _ hpos
    have hframes : m'.pop.frames = m.frames := frames_pop_of_keepsOuter (h.keepsOuter (Nat.succ_pos _))
    rw [hframes]
    exact .refl hpos
  | trans h₁ h₂ ih₁ ih₂ =>
    intro hnot hpos
    have hfirst := ih₁ hnot hpos
    exact hfirst.trans (ih₂ hnot (Nat.lt_of_lt_of_eq hpos hfirst.depth.symm))

/-- Where nothing is written and nothing declared the stack is the same, with frames or without. -/
theorem Moves.frames_eq (h : Moves written declares m m') :
    (∀ name, ¬written name) → ¬declares → m'.frames = m.frames := by
  induction h with
  | stay m | note e m | host h m => exact fun _ _ => rfl
  | set name v m hname => exact fun hnone => absurd hname (hnone name)
  | declare f m hdeclares => exact fun _ hnot => absurd hdeclares hnot
  | frame h => exact fun _ _ => frames_pop_of_keepsOuter (h.keepsOuter (Nat.succ_pos _))
  | trans _ _ ih₁ ih₂ => exact fun hnone hnot => (ih₂ hnone hnot).trans (ih₁ hnone hnot)

theorem Moves.sameFunctions (h : Moves written declares m m') (hdeclares : ¬declares) :
    SameFunctions m.frames m'.frames := by
  induction h with
  | stay m | note e m | host h m => exact .refl _
  | set name v m hname =>
    rw [frames_set]
    exact .set name v m.frames
  | declare f m h => exact absurd h hdeclares
  | frame h =>
    rw [frames_pop_of_keepsOuter (h.keepsOuter (Nat.succ_pos _))]
    exact .refl _
  | trans _ _ ih₁ ih₂ => exact (ih₁ hdeclares).trans (ih₂ hdeclares)

/-! ## Evaluation -/

theorem evaluate_sameBut (commands : Registry σ) (e : Expr) (hpos : 0 < m.depth) :
    SameBut e.Assigns m.frames (evaluate commands e m).2.frames := by
  have hmoves := (evaluate_moves commands e m).weaken (fun x => (e.assigned_iff x).mp) id
  exact hmoves.sameBut id hpos

theorem frames_evaluate (commands : Registry σ) (e : Expr) (m : Machine σ)
    (h : ∀ x, ¬e.Assigns x) : (evaluate commands e m).2.frames = m.frames :=
  (evaluate_moves commands e m).frames_eq (fun x hx => h x ((e.assigned_iff x).mp hx)) id

/-- On a stack with a frame an expression changes variables of the innermost frame only, those that it
assigns itself, whether its evaluation succeeds or fails; a call whose arguments assign nothing leaves
the stack as it was. -/
theorem evaluate_changes_assigned (commands : Registry σ) (m : Machine σ) (h : 0 < m.depth) :
    (∀ e, SameBut e.Assigns m.frames (evaluate commands e m).2.frames) ∧
    ∀ name args, (∀ arg ∈ args, ∀ x, ¬arg.Assigns x) →
      (evaluate commands (.call name args) m).2.frames = m.frames := by
  refine ⟨fun e => evaluate_sameBut commands e h, fun name args hargs => ?_⟩
  refine frames_evaluate commands (.call name args) m fun x hx => ?_
  obtain ⟨arg, harg, hassigns⟩ := Expr.assigns_call_iff.mp hx
  exact hargs arg harg x hassigns

/-- A machine with a function that assigns its parameter and a variable of its caller, and declares
another function, before it fails. -/
def withAssigningFunction : Machine Unit :=
  ((start () none).push.set "y" (.boolean false)).declare
    ⟨"f", [⟨"any", "x"⟩],
      [.expression ⟨1, 1⟩ (.assign "x" (.literal (.boolean false))),
        .expression ⟨2, 1⟩ (.assign "y" (.literal (.boolean true))),
        .declaration ⟨3, 1⟩ "g" [] [],
        .command ⟨4, 1⟩ "missing" []]⟩

def assigningCall : Expr := .call "f" [.assign "x" (.literal (.boolean true))]

/-- The function has run to its end, and all that is left is what the argument assigned. -/
theorem evaluate_changes_assigned_failing :
    (evaluate Registry.empty assigningCall withAssigningFunction).1 =
        .error ⟨.commandNotFound "missing", [4]⟩ ∧
      0 < withAssigningFunction.depth ∧
        SameBut assigningCall.Assigns withAssigningFunction.frames
          (evaluate Registry.empty assigningCall withAssigningFunction).2.frames := by
  have hpos : 0 < withAssigningFunction.depth := by decide
  refine ⟨by rfl, hpos, ?_⟩
  exact (evaluate_changes_assigned Registry.empty withAssigningFunction hpos).1 assigningCall

end Machine

end CommandScript
