import CommandScript.Decimal.Read
import CommandScript.Decimal.Shortest
import CommandScript.Text.WhiteSpace

/-!
Numbers are doubles. Here they are written, for scripts and for the journal, and read, as words of
a script and as arguments given in text.
-/

namespace CommandScript.Number
set_option autoImplicit false

open Float.Model.UnpackedFloat (Sign)

/-! ## Writing -/

/-- The sign before a number. -/
def signText : Sign → String
  | .positive => ""
  | .negative => "-"

/-- A number as scripts write it: the shortest digits that read back, never with an exponent. -/
def text (x : Float) : String :=
  match x.toModel.unpack with
  | .notANumber => "NaN"
  | .infinity s => signText s ++ "inf"
  | .zero s => signText s ++ "0"
  | .finite s _ _ _ => signText s ++ (Decimal.shortest x).positional

/-- Whether the journal writes a number with an exponent: it is large, or small and not zero. -/
def needsExponent (x : Float) : Bool := 1e16 ≤ x.abs || x.abs < 1e-4

/-- A decimal that can be told from an integer. -/
def withPoint (d : Decimal) : String :=
  if d.exponent < 0 then d.positional else d.positional ++ ".0"

/-- A number as the journal writes it. -/
def journalText (x : Float) : String :=
  match x.toModel.unpack with
  | .notANumber => "NaN"
  | .infinity s => signText s ++ "inf"
  | .zero s => signText s ++ "0.0"
  | .finite s _ _ _ =>
    let d := Decimal.shortest x
    signText s ++ if needsExponent x then d.scientific else withPoint d

/-! ## Reading -/

/-- The number that a word of a script writes. It begins with a digit or a point, so no other
spelling of a number is one. -/
def ofWord? (word : String) : Option Float :=
  match word.toList with
  | c :: cs =>
    if c.isDigit || c = '.' then (Decimal.read? (c :: cs)).map Decimal.toFloat else none
  | [] => none

/-- The words for numbers without digits, in lower case. -/
def named? (name : String) : Option Float :=
  if name = "inf" || name = "infinity" then some (.ofModel (.pack (.infinity .positive)))
  else if name = "nan" then some (.ofModel (.pack .notANumber))
  else none

/-- The number without a sign that the characters write. -/
def unsigned? (cs : List Char) : Option Float :=
  match named? (String.ofList (cs.map Char.toLower)) with
  | some x => some x
  | none => (Decimal.read? cs).map Decimal.toFloat

/-- The number that the characters write, with at most one sign. -/
def signed? : List Char → Option Float
  | '-' :: cs => (unsigned? cs).map fun x => -x
  | '+' :: cs => unsigned? cs
  | cs => unsigned? cs

/-- The number that a text writes, white space around it left aside. -/
def ofText? (s : String) : Option Float := signed? (Text.trim s.toList)

/-! ## Whole parts -/

/-- The whole part of the magnitude `m · 2 ^ e`. -/
def wholePart (m : Nat) (e : Int) : Nat := m * Nat.pow 2 e.toNat / Nat.pow 2 (-e).toNat

/-- The number of that whole part. -/
def ofWholePart (m : Nat) (e : Int) : Float := Decimal.toFloat ⟨wholePart m e, 0⟩

end CommandScript.Number
