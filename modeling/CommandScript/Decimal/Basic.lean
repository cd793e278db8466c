/-!
Decimal numbers `digits · 10 ^ exponent`, the double nearest to one, and the two ways to write one:
positionally, or with one digit before the point and an exponent behind. The main statement is that
moving the power of ten into the digits does not change the nearest double.
-/

namespace CommandScript
set_option autoImplicit false

/-- The number `digits · 10 ^ exponent`. -/
structure Decimal where
  digits : Nat
  exponent : Int
  deriving DecidableEq

namespace Decimal

/-- Whether the number is at least `10 ^ k`. -/
def reaches (d : Decimal) (k : Nat) : Bool :=
  Nat.pow 10 (k + (-d.exponent).toNat) ≤ d.digits * Nat.pow 10 d.exponent.toNat

/-- The nearest double; of two that are equally near, the one with the even significand. Numbers far
beyond all doubles are told first, because rounding takes a step for each digit before the point. -/
def toFloat (d : Decimal) : Float :=
  .ofModel <|
    if d.reaches 400 then .pack (.infinity .positive)
    else Float.Model.ofScientific d.digits d.exponent

/-! ## Written forms -/

/-- The digits of a natural number. -/
def digitsOf (n : Nat) : List Char := Nat.toDigits 10 n

/-- All digits, with a point only where there are digits behind it. -/
def positional (d : Decimal) : String :=
  let ds := digitsOf d.digits
  if 0 ≤ d.exponent then String.ofList (ds ++ List.replicate d.exponent.toNat '0')
  else
    let places := (-d.exponent).toNat
    if places < ds.length then
      String.ofList (ds.take (ds.length - places) ++ '.' :: ds.drop (ds.length - places))
    else String.ofList ('0' :: '.' :: (List.replicate (places - ds.length) '0' ++ ds))

/-- One digit, the other digits behind a point, and the power of ten. -/
def scientific (d : Decimal) : String :=
  let ds := digitsOf d.digits
  let power := d.exponent + ((ds.length - 1 : Nat) : Int)
  let fraction := if ds.length ≤ 1 then [] else '.' :: ds.drop 1
  String.ofList (ds.take 1 ++ fraction) ++ "e" ++ toString power

/-! ## Powers of ten in the digits -/

theorem reaches_shift (n m k : Nat) : reaches ⟨n * Nat.pow 10 m, 0⟩ k = reaches ⟨n, m⟩ k := by
  simp [reaches]

/-- A number with a power of ten that is not large is rounded once. -/
theorem ofScientific_eq {n k : Nat} (hn : n ≠ 0) (hk : k ≤ 2048) :
    Float.Model.UnpackedFloat.ofScientific .binary64 n k =
      .roundWithAccuracy .binary64 .positive (n <<< 53 * Nat.pow 10 k) (-53) .exact := by
  have hbits : Float.Model.Format.binary64.exponentBits = 11 := rfl
  unfold Float.Model.UnpackedFloat.ofScientific
  rw [hbits, dif_neg hn, if_neg (by omega), if_neg (by omega), if_pos (by omega)]
  rfl

/-- The nearest double depends on the number only, wherever its power of ten stands. -/
theorem toFloat_shift (n k : Nat) (hk : k ≤ 2048) :
    toFloat ⟨n * Nat.pow 10 k, 0⟩ = toFloat ⟨n, k⟩ := by
  unfold toFloat
  rw [reaches_shift]
  congr 2
  change Float.Model.pack (Float.Model.UnpackedFloat.ofScientific .binary64 (n * Nat.pow 10 k) (0 : Nat)) =
    Float.Model.pack (Float.Model.UnpackedFloat.ofScientific .binary64 n k)
  by_cases hn : n = 0
  · subst hn
    rw [Nat.zero_mul]
    rfl
  · have hp : n * Nat.pow 10 k ≠ 0 := Nat.mul_ne_zero hn (Nat.ne_of_gt (Nat.pow_pos (by decide)))
    have hmove : (n * Nat.pow 10 k) <<< 53 * Nat.pow 10 0 = n <<< 53 * Nat.pow 10 k := by
      simp only [Nat.shiftLeft_eq, Nat.pow_eq, Nat.pow_zero, Nat.mul_one]
      rw [Nat.mul_assoc, Nat.mul_comm (10 ^ k), Nat.mul_assoc]
    rw [ofScientific_eq hp (by omega), ofScientific_eq hn hk, hmove]

end Decimal

end CommandScript
