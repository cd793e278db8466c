/-!
Places in a source text. A place is a line and a column, both counted from one; a column is one
code point wide, and only a line feed opens a new line.
-/

namespace CommandScript
set_option autoImplicit false

/-- A line and a column, both counted from one. -/
structure Location where
  line : Nat
  column : Nat
  deriving DecidableEq

namespace Location

/-- Where every source begins. -/
def start : Location := ⟨1, 1⟩

/-- The place behind the character `c` that stands at `here`. -/
def after (here : Location) (c : Char) : Location :=
  if c = '\n' then ⟨here.line + 1, 1⟩ else ⟨here.line, here.column + 1⟩

/-- The place behind a text that begins at `here`. -/
def afterText (here : Location) (text : String) : Location := text.toList.foldl after here

/-- The place as an error message names it. -/
def text (here : Location) : String := s!"line {here.line}, column {here.column}"

/-! ## Scanning -/

@[simp] theorem after_newline (here : Location) : here.after '\n' = ⟨here.line + 1, 1⟩ := rfl

@[simp] theorem after_of_ne {c : Char} (here : Location) (h : c ≠ '\n') :
    here.after c = ⟨here.line, here.column + 1⟩ := if_neg h

@[simp] theorem afterText_empty (here : Location) : here.afterText "" = here := by
  simp [afterText]

@[simp] theorem afterText_append (here : Location) (a b : String) :
    here.afterText (a ++ b) = (here.afterText a).afterText b := by
  simp [afterText, List.foldl_append]

end Location

end CommandScript
