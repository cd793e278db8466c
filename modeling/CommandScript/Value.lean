import CommandScript.Expr.Basic
import CommandScript.Text.Invisible

/-! The values that expressions have, and their text. -/

namespace CommandScript
set_option autoImplicit false

inductive ValueType where
  | number
  | text
  | boolean
  | null
  deriving DecidableEq

def ValueType.name : ValueType → String
  | number => "number"
  | text => "string"
  | boolean => "boolean"
  | null => "null"

inductive Value where
  | number (x : Float)
  | text (s : String)
  | boolean (b : Bool)
  | null
  deriving DecidableEq

namespace Value

instance : Inhabited Value := ⟨null⟩

def ofLiteral : Literal → Value
  | .number x => number x
  | .text s => text s
  | .boolean b => boolean b

def type : Value → ValueType
  | number _ => .number
  | text _ => .text
  | boolean _ => .boolean
  | null => .null

/-- The text of a value where a text is asked for; null has none. -/
def toText : Value → String
  | number x => Number.text x
  | text s => s
  | boolean b => if b then "true" else "false"
  | null => ""

/-! ## In the journal -/

/-- The digits of a code point in base sixteen. -/
def hexDigits (c : Char) : List Char := Nat.toDigits 16 c.toNat

/-- A character between the quotes of a string in the journal. -/
def journalEscape (c : Char) : List Char :=
  if c = '"' || c = '\\' then ['\\', c]
  else if c = '\n' then ['\\', 'n']
  else if c = '\t' then ['\\', 't']
  else if c = '\r' then ['\\', 'r']
  else if c.toNat = 0 then ['\\', '0']
  else if Text.isInvisible c then
    '\\' :: 'u' :: '\x7b' :: (hexDigits c ++ ['\x7d'])
  else [c]

def journalQuote (s : String) : String :=
  String.ofList ('"' :: (s.toList.flatMap journalEscape ++ ['"']))

def journalText : Value → String
  | number x => "Number(" ++ Number.journalText x ++ ")"
  | text s => "Str(" ++ journalQuote s ++ ")"
  | boolean b => "Boolean(" ++ (if b then "true" else "false") ++ ")"
  | null => "Null"

end Value

end CommandScript
