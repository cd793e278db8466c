import CommandScript.Command.Basic
import Std.Data.TreeMap.Lemmas

/-!
The commands that a host offers, found by their names and listed in the order of the names. A name
finds the command that was registered last under it.
-/

namespace CommandScript
set_option autoImplicit false

structure Registry (σ : Type) where
  commands : Std.TreeMap String (Command σ)

namespace Registry

variable {σ : Type}

def empty : Registry σ := ⟨∅⟩

/-- Offers a command, instead of the one that had its name. -/
def register (r : Registry σ) (c : Command σ) : Registry σ := ⟨r.commands.insert c.name c⟩

def ofCommands (cs : List (Command σ)) : Registry σ := cs.foldl register empty

def find? (r : Registry σ) (name : String) : Option (Command σ) := r.commands.get? name

def names (r : Registry σ) : List String := r.commands.keys

/-- The usage of each command, in lines. -/
def usage (r : Registry σ) : String :=
  String.intercalate "\n" (r.commands.values.map Command.usage)

/-! ## Finding -/

@[simp] theorem find?_empty (name : String) : (empty : Registry σ).find? name = none := by
  simp [empty, find?]

@[simp] theorem find?_register (r : Registry σ) (c : Command σ) (name : String) :
    (r.register c).find? name = if c.name = name then some c else r.find? name := by
  simp [register, find?, Std.TreeMap.getElem?_insert]

end Registry

end CommandScript
