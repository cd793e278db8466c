import CommandScript.Lexeme.Basic

/-! Why a source is no script, where that shows, and how it is told. -/

namespace CommandScript
set_option autoImplicit false

inductive SyntaxFault where
  | invalidString
  | unterminatedString
  | expected (kind : LexemeKind)
  | expectedExpression
  | expectedStatement
  | expectedIdentifier
  | nestedFunction
  | invalidOperatorChain
  | missingTerminator
  | tooDeep
  deriving DecidableEq

def SyntaxFault.message : SyntaxFault → String
  | invalidString => "invalid string"
  | unterminatedString => "unterminated string"
  | expected kind => "expected " ++ kind.text
  | expectedExpression => "expected expression"
  | expectedStatement => "expected statement"
  | expectedIdentifier => "expected identifier"
  | nestedFunction => "functions cannot be declared inside functions"
  | invalidOperatorChain => "invalid operator chain"
  | missingTerminator => "expected end of statement"
  | tooDeep => "expression nested too deeply"

/-- A fault, the place of the lexeme at which it shows, and what that lexeme is called. -/
structure ParseError where
  fault : SyntaxFault
  place : Location
  found : String
  deriving DecidableEq

namespace ParseError

def ofLexeme (fault : SyntaxFault) (l : Lexeme) : ParseError := ⟨fault, l.start, l.text⟩

def message (e : ParseError) : String :=
  "Parse error at " ++ e.place.text ++ ": " ++ e.fault.message ++ ", found " ++ e.found

end ParseError

end CommandScript
