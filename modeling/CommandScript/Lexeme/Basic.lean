import CommandScript.Lexeme.Kind
import CommandScript.Location

/-!
Lexemes: the pieces of a source text, each with the places where it begins and ends. A token is
a lexeme whose place is not known yet.
-/

namespace CommandScript
set_option autoImplicit false

/-- A piece of source text and its kind. -/
structure Token where
  kind : LexemeKind
  content : String
  deriving DecidableEq

/-- A token and where it stands: `start` is the place of its first character, `stop` the place
behind its last one. -/
structure Lexeme where
  kind : LexemeKind
  content : String
  start : Location
  stop : Location
  deriving DecidableEq

/-- The lexeme that `token` makes at `here`. -/
def Token.placed (token : Token) (here : Location) : Lexeme :=
  ⟨token.kind, token.content, here, here.afterText token.content⟩

namespace Lexeme

/-- The end of a source, a lexeme without content. -/
def endOfFile (here : Location) : Lexeme := ⟨.endOfFile, "", here, here⟩

/-- What the lexeme is called where it was found but not expected. -/
def text (l : Lexeme) : String :=
  match l.kind with
  | .endOfFile => "end of file"
  | .newLine => "newline"
  | _ => "`" ++ l.content ++ "`"

end Lexeme

end CommandScript
