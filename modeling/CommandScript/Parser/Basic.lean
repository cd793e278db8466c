import CommandScript.Cursor

/-!
Parsers. A parser moves a cursor and answers, or it stops with a fault; `many` runs one again and
again for as long as it answers.
-/

namespace CommandScript
set_option autoImplicit false

abbrev Parser (α : Type) := StateT Cursor (Except ParseError) α

namespace Parser

def peek : Parser Lexeme := fun c => .ok (c.peek, c)

def peekPast (skip : Skip) : Parser Lexeme := fun c => .ok (c.peekPast skip, c)

def advance : Parser Lexeme := fun c => .ok (c.peek, c.advance)

def skip (mode : Skip) : Parser Unit := fun c => .ok ((), c.skipWhile mode.skips)

def skipWhile (skips : LexemeKind → Bool) : Parser Unit := fun c => .ok ((), c.skipWhile skips)

def mark : Parser Unit := fun c => .ok ((), c.mark)

def commit : Parser Unit := fun c => .ok ((), c.commit)

def rollback : Parser Unit := fun c => .ok ((), c.rollback)

def tryTakeIf (wanted : Lexeme → Bool) (mode : Skip) : Parser (Option Lexeme) :=
  fun c => .ok (c.tryTakeIf wanted mode)

def tryTake (kind : LexemeKind) (mode : Skip) : Parser (Option Lexeme) :=
  fun c => .ok (c.tryTake kind mode)

def take (kind : LexemeKind) (mode : Skip) : Parser Lexeme := fun c =>
  match c.take kind mode with
  | (.ok l, ahead) => .ok (l, ahead)
  | (.error e, _) => .error e

/-- Stops with a fault that shows at `l`. -/
def fail {α : Type} (fault : SyntaxFault) (l : Lexeme) : Parser α :=
  fun _ => .error (.ofLexeme fault l)

/-! ## Repetition -/

/-- Runs `step` until it has no answer, but not oftener than there are lexemes in the last
argument. The answers so far are given last first. -/
def manyWithin {α : Type} (step : Parser (Option α)) (found : List α) :
    List Lexeme → Parser (List α)
  | [], c => .ok (found.reverse, c)
  | _ :: rounds, c =>
    match step c with
    | .error e => .error e
    | .ok (none, c') => .ok (found.reverse, c')
    | .ok (some a, c') => manyWithin step (a :: found) rounds c'

/-- Runs `step` until it has no answer. A step that answers takes at least one lexeme, so there are
enough rounds. -/
def many {α : Type} (step : Parser (Option α)) : Parser (List α) :=
  fun c => manyWithin step [] (c.position.lexeme :: c.position.rest) c

end Parser

end CommandScript
