import CommandScript.Frames
import CommandScript.Lexeme.Scan
import CommandScript.ParseError

/-!
What is moved down. A source behind other lines has the lexemes, the faults and the statements that
it has alone, each as many lines further down; nothing but the places tells the difference.
-/

namespace CommandScript
set_option autoImplicit false

variable (k : Nat)

/-! ## Places -/

/-- The place `k` lines further down, in the same column. -/
def Location.down (p : Location) : Location := { p with line := p.line + k }

namespace Location

@[simp] theorem down_zero (p : Location) : p.down 0 = p := rfl

theorem after_down (p : Location) (c : Char) : (p.down k).after c = (p.after c).down k := by
  unfold after down
  split
  · simp only [Nat.add_right_comm]
  · rfl

theorem foldl_after_down (cs : List Char) (p : Location) :
    cs.foldl after (p.down k) = (cs.foldl after p).down k := by
  induction cs generalizing p with
  | nil => rfl
  | cons c cs ih => rw [List.foldl_cons, List.foldl_cons, after_down, ih]

theorem afterText_down (p : Location) (text : String) :
    (p.down k).afterText text = (p.afterText text).down k :=
  foldl_after_down k text.toList p

end Location

/-! ## Lexemes and faults -/

def Lexeme.down (l : Lexeme) : Lexeme :=
  { l with start := l.start.down k, stop := l.stop.down k }

def ParseError.down (e : ParseError) : ParseError := { e with place := e.place.down k }

namespace Lexeme

@[simp] theorem down_zero (l : Lexeme) : l.down 0 = l := rfl

@[simp] theorem kind_down (l : Lexeme) : (l.down k).kind = l.kind := rfl

end Lexeme

theorem placed_down (t : Token) (here : Location) :
    t.placed (here.down k) = (t.placed here).down k := by
  unfold Token.placed Lexeme.down
  rw [Location.afterText_down]

@[simp] theorem place_down (here : Location) (ts : List Token) :
    place (here.down k) ts = (place here ts).map (Lexeme.down k) := by
  induction ts generalizing here with
  | nil => rfl
  | cons t ts ih =>
    rw [place_cons, place_cons, List.map_cons, placed_down, ← ih]
    rfl

/-! ## Statements and functions -/

namespace Statement

mutual

/-- The statement with all its places moved down, those in the body of a declaration too. -/
def down : Statement → Statement
  | .command place name args => .command (place.down k) name args
  | .expression place e => .expression (place.down k) e
  | .declaration place name params body => .declaration (place.down k) name params (downAll body)

def downAll : List Statement → List Statement
  | [] => []
  | s :: ss => s.down :: downAll ss

end

theorem downAll_eq (ss : List Statement) : downAll k ss = ss.map (down k) := by
  induction ss with
  | nil => rfl
  | cons s ss ih => rw [downAll, ih, List.map_cons]

@[simp] theorem place_down (s : Statement) : (s.down k).place = s.place.down k := by
  cases s <;> rfl

mutual

@[simp] theorem down_zero : ∀ s : Statement, s.down 0 = s
  | .command place name args => rfl
  | .expression place e => rfl
  | .declaration place name params body => by
    rw [down, downAll_zero body]
    rfl

theorem downAll_zero : ∀ ss : List Statement, downAll 0 ss = ss
  | [] => rfl
  | s :: ss => by rw [downAll, down_zero s, downAll_zero ss]

end

@[simp] theorem map_down_zero (ss : List Statement) : ss.map (down 0) = ss := by
  rw [← downAll_eq, downAll_zero]

end Statement

/-- The function as a declaration further down makes it. -/
def Function.down (f : Function) : Function := { f with body := f.body.map (Statement.down k) }

@[simp] theorem Function.arity_down (f : Function) : (f.down k).arity = f.arity := rfl

@[simp] theorem Function.down_zero (f : Function) : f.down 0 = f := by
  unfold down
  rw [Statement.map_down_zero]

end CommandScript
