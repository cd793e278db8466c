import CommandScript.Expr.Chain
import CommandScript.Parser.Basic

/-!
Parsing expressions. An operand is a literal, a variable, an assignment, a call, a negation or an
expression in brackets; an expression is an operand or several with operators between them. Operands
inside operands are parsed with one level less, and none is parsed when no level is left.
-/

namespace CommandScript.Parser
set_option autoImplicit false

/-- How deep operands may be nested, and how deep the tree of an expression may be. -/
def maxDepth : Nat := 256

/-! ## Words -/

/-- The name in a word that begins with a dollar sign. -/
def variableName? (word : String) : Option String :=
  match word.toList with
  | '$' :: c :: cs => some (String.ofList (c :: cs))
  | _ => none

/-- Whether a word can be the name of a function in a call. -/
def isName (word : String) : Bool :=
  word.toList.head? ≠ some '$' && (Number.ofWord? word).isNone

/-- Whether a lexeme is a word that writes a number. -/
def isNumber (l : Lexeme) : Bool := l.kind == .word && (Number.ofWord? l.content).isSome

/-- The number behind a minus sign that is the next lexeme, if nothing stands between the two. -/
def negativeNumber? : Parser (Option Float) := do
  mark
  let _ ← advance
  match ← tryTakeIf isNumber .nothing with
  | some l =>
    commit
    pure ((Number.ofWord? l.content).map fun x => -x)
  | none =>
    rollback
    pure none

/-! ## Chains and arguments

`operand` is the parser of the operands; it answers `none`, and takes nothing, where none begins. -/

/-- The operators and operands behind the first operand; at most `n` operators are allowed. The
links so far are given last first. -/
def linksFrom (operand : Parser (Option Expr)) : Nat → List Link → Parser (List Link)
  | n, links => do
    match ← tryTakeIf (fun l => (Operator.ofKind? l.kind).isSome) .whitespace with
    | none => pure links.reverse
    | some sign =>
      match n with
      | 0 => fail .tooDeep sign
      | n + 1 =>
        match Operator.ofKind? sign.kind with
        | some op => do
          skip .whitespace
          match ← operand with
          | some e => linksFrom operand n (.operand e :: .operator op :: links)
          | none => fail .expectedExpression (← peek)
        | none => fail .tooDeep sign

/-- An expression, if one begins here. -/
def expression? (operand : Parser (Option Expr)) : Parser (Option Expr) := do
  let start ← peek
  match ← operand with
  | none => pure none
  | some first =>
    match Chain.resolve (← linksFrom operand maxDepth [.operand first]) with
    | none => fail .invalidOperatorChain start
    | some e => if e.depth > maxDepth then fail .tooDeep start else pure (some e)

def expression (operand : Parser (Option Expr)) : Parser Expr := do
  match ← expression? operand with
  | some e => pure e
  | none => fail .expectedExpression (← peek)

/-- An argument on the same line, if there is one; a comma may stand before all but the first. -/
def argument? (operand : Parser (Option Expr)) (isFirst : Bool) : Parser (Option Expr) := do
  mark
  skip .whitespace
  if !isFirst then
    let _ ← tryTake .comma .nothing
    skip .whitespace
  match ← expression? operand with
  | some e =>
    commit
    pure (some e)
  | none =>
    rollback
    pure none

/-- The arguments up to the first place where none begins. -/
def arguments (operand : Parser (Option Expr)) : Parser (List Expr) := do
  match ← argument? operand true with
  | none => pure []
  | some first => do
    let others ← many (argument? operand false)
    pure (first :: others)

/-! ## Operands -/

/-- What the word `l`, which is taken already, means in an expression. -/
def wordOperand (operand : Parser (Option Expr)) (l : Lexeme) : Parser Expr := do
  match Number.ofWord? l.content, variableName? l.content with
  | some x, _ => pure (.literal (.number x))
  | none, some name =>
    match ← tryTake .equals .whitespace with
    | some _ =>
      skip .whitespace
      pure (.assign name (← expression operand))
    | none => pure (.variable name)
  | none, none => fail .invalidString l

/-- What follows an exclamation mark: a call where a name stands there, else a negation. -/
def markedOperand (operand : Parser (Option Expr)) : Parser Expr := do
  let l ← peek
  if l.kind == .word && isName l.content then
    let _ ← advance
    pure (.call l.content (← arguments operand))
  else
    match ← operand with
    | some e => pure (.negate e)
    | none => fail .expectedExpression l

/-- An operand whose own operands are parsed by `operand`, if one begins here. -/
def operandOver (operand : Parser (Option Expr)) : Parser (Option Expr) := do
  let l ← peek
  match l.kind with
  | .leftParen =>
    let _ ← advance
    skip .whitespace
    let e ← expression operand
    let _ ← take .rightParen .whitespace
    pure (some e)
  | .quotedString =>
    let _ ← advance
    match Text.unquote? l.content with
    | some s => pure (some (.literal (.text s)))
    | none => fail .unterminatedString l
  | .keyword =>
    if l.content = "true" ∨ l.content = "false" then
      let _ ← advance
      pure (some (.literal (.boolean (l.content = "true"))))
    else fail .expectedExpression l
  | .word =>
    let _ ← advance
    some <$> wordOperand operand l
  | .exclamation =>
    let _ ← advance
    some <$> markedOperand operand
  | .minus => return (← negativeNumber?).map fun x => .literal (.number x)
  | _ => pure none

/-- An operand with `n` levels left for it and the operands inside it. -/
def operandWithin : Nat → Parser (Option Expr)
  | 0, c => fail .tooDeep c.peek c
  | n + 1, c => operandOver (operandWithin n) c

/-- The operand parser of a statement. -/
def operand : Parser (Option Expr) := operandWithin maxDepth

end CommandScript.Parser
