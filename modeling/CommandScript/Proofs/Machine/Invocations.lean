import CommandScript.Machine.Basic

/-!
What there is to see of a machine from outside: the commands that were run, with their arguments, as
the journal tells them, and the state of the host. Only running a command changes either.
-/

namespace CommandScript
set_option autoImplicit false

variable {σ : Type}

/-! ## The invocations in a journal -/

/-- A command that ran, and the arguments that it was given. -/
structure CommandCall where
  command : String
  args : List Argument

def Event.invocation? : Event → Option CommandCall
  | .invoked name args => some ⟨name, args⟩
  | _ => none

/-- The commands that a journal says were run, the latest first. -/
def invocations (journal : List Event) : List CommandCall := journal.filterMap Event.invocation?

theorem invocations_note {e : Event} (h : e.invocation? = none) (m : Machine σ) :
    (m.note e).journal.map invocations = m.journal.map invocations := by
  obtain ⟨frames, host, _ | journal⟩ := m
  · rfl
  · simp only [Machine.note, Option.map_some, invocations, List.filterMap_cons, h]

theorem invocations_note_invoked (name : String) (args : List Argument) (m : Machine σ) :
    (m.note (.invoked name args)).journal.map invocations =
      (m.journal.map invocations).map (⟨name, args⟩ :: ·) := by
  obtain ⟨frames, host, _ | journal⟩ := m <;> rfl

@[simp] theorem invocations_ensureRoot (m : Machine σ) :
    m.ensureRoot.journal.map invocations = m.journal.map invocations := by
  obtain ⟨⟨_ | ⟨f, fs⟩⟩, host, journal⟩ := m
  · exact invocations_note rfl _
  · rfl

@[simp] theorem invocations_set (name : String) (v : Value) (m : Machine σ) :
    (m.set name v).journal.map invocations = m.journal.map invocations :=
  (invocations_ensureRoot _).trans (invocations_note rfl m)

@[simp] theorem invocations_declare (f : Function) (m : Machine σ) :
    (m.declare f).journal.map invocations = m.journal.map invocations :=
  (invocations_ensureRoot _).trans (invocations_note rfl m)

/-! ## The host -/

namespace Machine

@[simp] theorem host_ensureRoot (m : Machine σ) : m.ensureRoot.host = m.host := by
  obtain ⟨⟨_ | ⟨f, fs⟩⟩, host, journal⟩ := m <;> rfl

@[simp] theorem host_set (name : String) (v : Value) (m : Machine σ) : (m.set name v).host = m.host :=
  host_ensureRoot _

@[simp] theorem host_declare (f : Function) (m : Machine σ) : (m.declare f).host = m.host :=
  host_ensureRoot _

end Machine

end CommandScript
