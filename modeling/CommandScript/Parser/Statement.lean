import CommandScript.Lexeme.Scan
import CommandScript.Parser.Expr
import CommandScript.Statement.Basic

/-!
Parsing statements and scripts. A statement ends at a semicolon, at the end of its line, or before
the brace that closes the body around it. Functions are declared at the top of a script only.
-/

namespace CommandScript
namespace Parser
set_option autoImplicit false

/-! ## Commands and expressions -/

/-- The end of a statement. A closing brace and the end of the source are left there. -/
def terminator : Parser Unit := do
  skip .whitespace
  let l ← peek
  match l.kind with
  | .semicolon | .newLine | .comment =>
    let _ ← advance
    pure ()
  | .endOfFile | .rightBrace => pure ()
  | _ => fail .missingTerminator l

def command (place : Location) : Parser Statement := do
  let name ← advance
  let args ← arguments operand
  terminator
  pure (.command place name.content args)

def expressionStatement (place : Location) : Parser Statement := do
  let e ← expression operand
  terminator
  pure (.expression place e)

/-! ## Blocks -/

/-- The statement that begins with the next lexeme. After the word `function`, which it takes, the
statement is what `declaration` makes of it. -/
def statement (declaration : Lexeme → Parser Statement) : Parser Statement := do
  let l ← peek
  match l.kind with
  | .keyword =>
    if l.content = "function" then
      let _ ← advance
      declaration l
    else fail .expectedStatement l
  | .exclamation => expressionStatement l.start
  | .word => if l.content.toList.head? = some '$' then expressionStatement l.start else command l.start
  | _ => fail .expectedStatement l

/-- The next statement of a body or of a script, unless that ends here. -/
def statement? (inBody : Bool) (declaration : Lexeme → Parser Statement) :
    Parser (Option Statement) := do
  skipWhile LexemeKind.isSeparator
  let l ← peek
  match l.kind, inBody with
  | .endOfFile, true => fail (.expected .rightBrace) l
  | .endOfFile, false => pure none
  | .rightBrace, true => pure none
  | _, _ => some <$> statement declaration

/-- The statements of a function body. -/
def body : Parser (List Statement) := many (statement? true (fail .nestedFunction))

/-! ## Declarations -/

def identifier (mode : Skip) : Parser String := do
  let ahead ← peekPast mode
  match ← tryTakeIf (fun l => l.kind == .word) mode with
  | some l => pure l.content
  | none => fail .expectedIdentifier ahead

/-- A type and a name; dollar signs before the name do not belong to it. -/
def parameter : Parser Parameter := do
  let type ← identifier .layout
  let name ← identifier .layout
  pure ⟨type, String.ofList (name.toList.dropWhile (· == '$'))⟩

def furtherParameter? : Parser (Option Parameter) := do
  match ← tryTake .comma .layout with
  | some _ => some <$> parameter
  | none => pure none

/-- The parameters behind an opening bracket, and the closing one. -/
def parameters : Parser (List Parameter) := do
  match ← tryTake .rightParen .layout with
  | some _ => pure []
  | none =>
    let first ← parameter
    let others ← many furtherParameter?
    let _ ← take .rightParen .layout
    pure (first :: others)

/-- The declaration behind the word `function`, which is the lexeme `l`. -/
def declaration (l : Lexeme) : Parser Statement := do
  let name ← identifier .whitespace
  let _ ← take .leftParen .whitespace
  let params ← parameters
  let _ ← take .leftBrace .layout
  let statements ← body
  let _ ← take .rightBrace .nothing
  pure (.declaration l.start name params statements)

/-- All statements up to the end of the source. -/
def script : Parser Script := many (statement? false declaration)

end Parser

namespace Script

/-- The script that a list of lexemes writes. -/
def ofLexemes (ls : List Lexeme) : Except ParseError Script :=
  (Parser.script (Cursor.ofLexemes ls)).map Prod.fst

/-- The script that a text writes. -/
def parse (source : String) : Except ParseError Script := ofLexemes (lexemes source)

end Script

end CommandScript
