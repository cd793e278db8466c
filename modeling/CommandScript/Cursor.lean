import CommandScript.ParseError

/-!
A cursor over lexemes. It stands on a lexeme, never behind the last one, and it can return to the
places that were marked before. Taking a lexeme is a transaction: it moves the cursor behind that
lexeme or leaves it where it was.
-/

namespace CommandScript
set_option autoImplicit false

/-- Which lexemes are passed over in search of the next one. -/
inductive Skip where
  | nothing
  | whitespace
  | layout
  deriving DecidableEq

def Skip.skips : Skip → LexemeKind → Bool
  | .nothing, _ => false
  | .whitespace, kind => kind == .whitespace
  | .layout, kind => kind.isLayout

/-! ## Positions -/

/-- A lexeme in a list, how many stand before it, and those behind it. -/
structure Position where
  index : Nat
  lexeme : Lexeme
  rest : List Lexeme
  deriving DecidableEq

namespace Position

/-- The next position, or this one if it is the last. -/
def next (p : Position) : Position :=
  match p.rest with
  | [] => p
  | l :: ls => ⟨p.index + 1, l, ls⟩

/-- The first position from lexeme number `i` on that is not skipped, or the last one. -/
def passFrom (skips : LexemeKind → Bool) (i : Nat) (l : Lexeme) : List Lexeme → Position
  | [] => ⟨i, l, []⟩
  | l' :: ls => if skips l.kind then passFrom skips (i + 1) l' ls else ⟨i, l, l' :: ls⟩

def pass (skips : LexemeKind → Bool) (p : Position) : Position :=
  passFrom skips p.index p.lexeme p.rest

end Position

/-! ## Cursors -/

/-- A position and the marked positions, the latest first. -/
structure Cursor where
  position : Position
  checkpoints : List Position
  deriving DecidableEq

namespace Cursor

/-- A cursor on the first lexeme. A list without lexemes is read as one that ends at once. -/
def ofLexemes : List Lexeme → Cursor
  | [] => ⟨⟨0, Lexeme.endOfFile Location.start, []⟩, []⟩
  | l :: ls => ⟨⟨0, l, ls⟩, []⟩

def index (c : Cursor) : Nat := c.position.index

def peek (c : Cursor) : Lexeme := c.position.lexeme

/-- The lexeme on which the cursor would stand after skipping. -/
def peekPast (skip : Skip) (c : Cursor) : Lexeme := (c.position.pass skip.skips).lexeme

def atEnd (c : Cursor) : Bool := c.peek.kind == .endOfFile

/-- The cursor one lexeme further on; it stays on the last one. -/
def advance (c : Cursor) : Cursor := { c with position := c.position.next }

/-- The cursor on the first lexeme that is not skipped. -/
def skipWhile (skips : LexemeKind → Bool) (c : Cursor) : Cursor :=
  { c with position := c.position.pass skips }

/-- The cursor with its position marked. -/
def mark (c : Cursor) : Cursor := { c with checkpoints := c.position :: c.checkpoints }

/-- The cursor without its latest mark. -/
def commit (c : Cursor) : Cursor := { c with checkpoints := c.checkpoints.tail }

/-- The cursor back at its latest mark, which is gone then. -/
def rollback (c : Cursor) : Cursor :=
  match c.checkpoints with
  | [] => c
  | p :: ps => ⟨p, ps⟩

/-- Takes the next lexeme that is not skipped, if it is wanted. -/
def tryTakeIf (wanted : Lexeme → Bool) (skip : Skip) (c : Cursor) : Option Lexeme × Cursor :=
  let ahead := c.mark.skipWhile skip.skips
  if wanted ahead.peek then (some ahead.peek, ahead.commit.advance) else (none, ahead.rollback)

def tryTake (kind : LexemeKind) (skip : Skip) (c : Cursor) : Option Lexeme × Cursor :=
  c.tryTakeIf (fun l => l.kind == kind) skip

/-- Takes a lexeme of the given kind; another one there is a fault. -/
def take (kind : LexemeKind) (skip : Skip) (c : Cursor) : Except ParseError Lexeme × Cursor :=
  match c.tryTake kind skip with
  | (some l, ahead) => (.ok l, ahead)
  | (none, back) => (.error (.ofLexeme (.expected kind) (c.peekPast skip)), back)

/-! ## Transactions -/

@[simp] theorem commit_mark (c : Cursor) : c.mark.commit = c := rfl

@[simp] theorem rollback_mark (c : Cursor) : c.mark.rollback = c := rfl

theorem peekPast_eq (skip : Skip) (c : Cursor) : c.peekPast skip = (c.skipWhile skip.skips).peek :=
  rfl

/-- A lexeme that is not wanted leaves the cursor where it was. -/
theorem tryTakeIf_eq (wanted : Lexeme → Bool) (skip : Skip) (c : Cursor) :
    c.tryTakeIf wanted skip =
      if wanted (c.peekPast skip) then (some (c.peekPast skip), (c.skipWhile skip.skips).advance)
      else (none, c) := rfl

end Cursor

end CommandScript
