import CommandScript.Decimal.Basic

/-!
Reading decimals: digits with at most one point among or around them, at least one digit, and an
exponent that may be left out. An exponent that is large already takes no more digits. The main
statement is that joining rows of digits gives the number that they write one by one.
-/

namespace CommandScript.Decimal
set_option autoImplicit false

/-! ## Digits -/

/-- The number that a decimal digit writes. -/
def digit (c : Char) : Nat := c.toNat - '0'.toNat

/-- Digits in a row: the number that they write, and how many they are. -/
structure Row where
  value : Nat
  count : Nat

namespace Row

/-- The row of one digit. -/
def single (c : Char) : Row := ⟨digit c, 1⟩

/-- The digits of `a` with those of `b` behind them. -/
def append (a b : Row) : Row := ⟨a.value * Nat.pow 10 b.count + b.value, a.count + b.count⟩

theorem append_assoc (a b c : Row) : (a.append b).append c = a.append (b.append c) := by
  simp only [append, Nat.pow_eq, Nat.add_mul, Nat.pow_add, Nat.add_assoc, Nat.mul_assoc]

/-- Adds a row behind others, which are given last first. It takes in those that are not longer, so
that there are few rows and each multiplication is one of numbers alike. -/
def onto : List Row → Row → List Row
  | [], b => [b]
  | a :: before, b => if a.count ≤ b.count then onto before (a.append b) else b :: a :: before

/-- All digits of the rows, which are given last first. -/
def joined : List Row → Row
  | [] => ⟨0, 0⟩
  | a :: before => (joined before).append a

theorem joined_onto (rows : List Row) (b : Row) :
    joined (onto rows b) = (joined rows).append b := by
  induction rows generalizing b with
  | nil => rfl
  | cons a before ih =>
    rw [onto]
    split
    · rw [ih, joined, append_assoc]
    · rfl

end Row

/-- The number that a list of decimal digits writes. -/
def ofDigits (ds : List Char) : Nat :=
  (Row.joined (ds.foldl (fun rows c => Row.onto rows (.single c)) [])).value

theorem joined_foldl_onto (ds : List Char) (rows : List Row) :
    (Row.joined (ds.foldl (fun rows c => Row.onto rows (.single c)) rows)).value =
      ds.foldl (fun n c => 10 * n + digit c) (Row.joined rows).value := by
  induction ds generalizing rows with
  | nil => rfl
  | cons c ds ih =>
    rw [List.foldl_cons, List.foldl_cons, ih, Row.joined_onto]
    simp [Row.append, Row.single, Nat.mul_comm]

theorem ofDigits_eq (ds : List Char) : ofDigits ds = ds.foldl (fun n c => 10 * n + digit c) 0 :=
  joined_foldl_onto ds []

/-! ## Exponents -/

/-- From here on an exponent takes no further digit. -/
def exponentLimit : Nat := 65536

/-- The exponent with one more digit, if it takes one. -/
def pushExponent (n : Nat) (c : Char) : Nat := if n < exponentLimit then 10 * n + digit c else n

/-- The magnitude of an exponent, which has at least one digit. -/
def magnitude? (cs : List Char) : Option Nat :=
  if !cs.isEmpty && cs.all Char.isDigit then some (cs.foldl pushExponent 0) else none

/-- An exponent with at most one sign before it. -/
def power? : List Char → Option Int
  | '-' :: cs => (magnitude? cs).map fun n => -(n : Int)
  | '+' :: cs => (magnitude? cs).map Int.ofNat
  | cs => (magnitude? cs).map Int.ofNat

/-- The exponent that follows the digits, zero if nothing follows them. -/
def exponent? : List Char → Option Int
  | [] => some 0
  | c :: cs => if c = 'e' ∨ c = 'E' then power? cs else none

/-! ## Decimals -/

/-- The decimal, without a sign, that the characters write. -/
def read? (cs : List Char) : Option Decimal :=
  let whole := cs.takeWhile Char.isDigit
  let behind := cs.dropWhile Char.isDigit
  let tail := match behind with
    | '.' :: rest => (rest.takeWhile Char.isDigit, rest.dropWhile Char.isDigit)
    | _ => ([], behind)
  if whole.isEmpty && tail.1.isEmpty then none
  else (exponent? tail.2).map fun e => ⟨ofDigits (whole ++ tail.1), e - (tail.1.length : Int)⟩

end CommandScript.Decimal
