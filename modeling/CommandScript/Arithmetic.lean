import CommandScript.RuntimeError

/-!
What the binary operators do with two values: doubles are combined, texts are appended to whatever
stands beside them, and a text is repeated by a number.
-/

namespace CommandScript
set_option autoImplicit false

/-! ## Repetition -/

/-- `n` copies of a text. -/
def copies (s : String) (n : Nat) : String := n.repeat (· ++ s) ""

/-- A number without its fraction. -/
def truncated (x : Float) : Float :=
  match x.toModel.unpack with
  | .finite .positive m e _ => Number.ofWholePart m e
  | .finite .negative m e _ => -Number.ofWholePart m e
  | _ => x

/-- The product, if it is less than the bound. -/
def productBelow? (bound a b : Nat) : Option Nat := if a * b < bound then some (a * b) else none

/-- The text `x` times, if that is short enough; the fraction of `x` does not count. A number beyond all
words is told before it becomes one, and the length is computed in a word. -/
def repeated (s : String) (x : Float) : Except Failure String :=
  let count := truncated x
  let tooLarge := .error (.repeatTooLarge s.utf8ByteSize count)
  if s.utf8ByteSize = 0 ∨ count.isNaN ∨ count ≤ 0 then .ok ""
  else if Decimal.toFloat ⟨maxRepeatedBytes, 0⟩ < count then tooLarge
  else
    let n := count.toUInt64.toNat
    match productBelow? UInt64.size s.utf8ByteSize n with
    | some length => if length ≤ maxRepeatedBytes then .ok (copies s n) else tooLarge
    | none => tooLarge

theorem repeatTooLarge_of_repeated {s : String} {x : Float} {f : Failure}
    (h : repeated s x = .error f) : f = .repeatTooLarge s.utf8ByteSize (truncated x) := by
  dsimp only [repeated] at h
  split at h
  · exact nomatch h
  split at h
  · exact (Except.error.inj h).symm
  split at h
  · split at h
    · exact nomatch h
    · exact (Except.error.inj h).symm
  · exact (Except.error.inj h).symm

/-! ## Operators -/

namespace Operator

def onNumbers : Operator → Float → Float → Float
  | add, x, y => x + y
  | subtract, x, y => x - y
  | multiply, x, y => x * y
  | divide, x, y => x / y

/-- The value of an operation, if the operator is defined for the two operands. -/
def apply : Operator → Value → Value → Except Failure Value
  | add, .text s, right => .ok (.text (s ++ right.toText))
  | multiply, .text s, .number x => (repeated s x).map .text
  | add, left, .text s => .ok (.text (left.toText ++ s))
  | op, .number x, .number y => .ok (.number (op.onNumbers x y))
  | op, left, right => .error (.invalidOperator op left.type right.type)

end Operator

end CommandScript
