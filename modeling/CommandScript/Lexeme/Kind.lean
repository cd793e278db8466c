/-!
The kinds of lexemes: the words and strings, the layout between them, and the single characters
that stand for themselves.
-/

namespace CommandScript
set_option autoImplicit false

inductive LexemeKind where
  | keyword
  | word
  | quotedString
  | whitespace
  | newLine
  | comment
  | exclamation
  | plus
  | minus
  | asterisk
  | slash
  | equals
  | leftParen
  | rightParen
  | leftBrace
  | rightBrace
  | comma
  | semicolon
  | endOfFile
  deriving DecidableEq

namespace LexemeKind

/-- The kind of a character that is a lexeme on its own. -/
def ofChar? (c : Char) : Option LexemeKind :=
  match c with
  | '!' => some exclamation
  | '+' => some plus
  | '-' => some minus
  | '*' => some asterisk
  | '/' => some slash
  | '=' => some equals
  | '(' => some leftParen
  | ')' => some rightParen
  | '{' => some leftBrace
  | '}' => some rightBrace
  | ',' => some comma
  | ';' => some semicolon
  | _ => none

/-- The words that scripts cannot use as names of their own. -/
def isKeyword (text : String) : Bool :=
  text == "function" || text == "true" || text == "false"

/-- The kind of a run of word characters. -/
def ofWord (text : String) : LexemeKind := if isKeyword text then keyword else word

/-- Layout separates other lexemes and means nothing else. -/
def isLayout : LexemeKind → Bool
  | whitespace | newLine => true
  | _ => false

/-- What may stand between two statements. -/
def isSeparator : LexemeKind → Bool
  | whitespace | newLine | semicolon | comment => true
  | _ => false

/-- The kind as an error message names it. -/
def text : LexemeKind → String
  | keyword => "keyword"
  | word => "word"
  | quotedString => "quoted string"
  | whitespace => "whitespace"
  | newLine => "newline"
  | comment => "comment"
  | exclamation => "`!`"
  | plus => "`+`"
  | minus => "`-`"
  | asterisk => "`*`"
  | slash => "`/`"
  | equals => "`=`"
  | leftParen => "`(`"
  | rightParen => "`)`"
  | leftBrace => "`\x7b`"
  | rightBrace => "`\x7d`"
  | comma => "`,`"
  | semicolon => "`;`"
  | endOfFile => "end of file"

end LexemeKind

end CommandScript
