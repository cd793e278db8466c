import CommandScript.Decimal.Shortest
import CommandScript.Proofs.Double.Canonical

/-!
Exact decimals of doubles. Rounding a number that a double can hold, however its significand is
shifted, gives that double. The main statement is that the exact decimal of a finite double, and so
the shortest one, reads back as its magnitude.
-/

namespace CommandScript.Double
set_option autoImplicit false

open Float.Model (Format UnpackedFloat totalExponent)
open Float.Model.UnpackedFloat (Sign ExtendedMantissa)

/-! ## Shifting -/

theorem shiftRight_exact (m j : Nat) :
    (⟨m * 2 ^ j, false, false⟩ : ExtendedMantissa) >>> j = ⟨m, false, false⟩ := by
  induction j generalizing m with
  | zero =>
    rw [Nat.pow_zero, Nat.mul_one]
    rfl
  | succ j ih =>
    have hshift := ih (m * 2)
    change ExtendedMantissa.shiftRightOne
      ((⟨m * 2 ^ (j + 1), false, false⟩ : ExtendedMantissa) >>> j) = _
    rw [Nat.pow_succ, Nat.mul_comm (2 ^ j), ← Nat.mul_assoc, hshift]
    unfold ExtendedMantissa.shiftRightOne
    rw [Nat.mul_div_cancel m (by decide), Nat.mul_mod_left]
    rfl

theorem log2_mul_two_pow {m : Nat} (hm : 0 < m) (j : Nat) : (m * 2 ^ j).log2 = m.log2 + j := by
  have hpos : 0 < 2 ^ j := Nat.pow_pos (by decide)
  rw [Nat.log2_eq_iff (Nat.ne_of_gt (Nat.mul_pos hm hpos))]
  refine ⟨?_, ?_⟩
  · rw [Nat.pow_add]
    exact Nat.mul_le_mul_right _ (Nat.log2_self_le (Nat.ne_of_gt hm))
  · rw [Nat.add_right_comm, Nat.pow_add]
    exact Nat.mul_lt_mul_of_pos_right Nat.lt_log2_self hpos

/-- The exponent for a canonical significand is its own, wherever the point stands. -/
theorem targetExponent_canonical {s : Sign} {m : Nat} {e : Int} {hm : 0 < m}
    (h : Canonical (.finite s m e hm)) (j : Nat) :
    Format.binary64.targetExponent (totalExponent (m * 2 ^ j) (e - j)) = e := by
  obtain ⟨hlt, hle, hshape⟩ := h
  have hhigh := (Nat.log2_lt (by omega)).mpr hlt
  have hlow : 2 ^ 52 ≤ m → 52 ≤ m.log2 := (Nat.le_log2 (by omega)).mpr
  unfold Format.targetExponent totalExponent
  rw [log2_mul_two_pow hm]
  change max (((m.log2 + j : Nat) : Int) + 1 + (e - j) - 53) (-1074) = e
  omega

theorem shiftToTargetExponent_canonical {s : Sign} {m : Nat} {e : Int} {hm : 0 < m}
    (h : Canonical (.finite s m e hm)) (j : Nat) :
    UnpackedFloat.shiftToTargetExponent .binary64 (m * 2 ^ j) (e - j) .exact =
      (⟨m, false, false⟩, e) := by
  unfold UnpackedFloat.shiftToTargetExponent UnpackedFloat.shiftToExponent
  rw [targetExponent_canonical h j]
  have hamount : (e - (e - (j : Int))).toNat = j := by omega
  simp only [hamount]
  change ((⟨m * 2 ^ j, false, false⟩ : ExtendedMantissa) >>> j, e - (j : Int) + (j : Int)) = _
  rw [shiftRight_exact, Int.sub_add_cancel]

theorem roundWithAccuracy_canonical {s : Sign} {m : Nat} {e : Int} {hm : 0 < m}
    (h : Canonical (.finite s m e hm)) (j : Nat) :
    UnpackedFloat.roundWithAccuracy .binary64 s (m * 2 ^ j) (e - j) .exact = .finite s m e hm := by
  unfold UnpackedFloat.roundWithAccuracy
  rw [shiftToTargetExponent_canonical h j]
  have hagain := shiftToTargetExponent_canonical h 0
  rw [Nat.pow_zero, Nat.mul_one, Int.natCast_zero, Int.sub_zero] at hagain
  change (let (final, exponent) := UnpackedFloat.shiftToTargetExponent .binary64 m e .exact
    if h : final.mantissa = 0 then UnpackedFloat.zero s
    else .finite s final.mantissa exponent (Nat.pos_of_ne_zero h)) = _
  rw [hagain]
  exact dif_neg (Nat.ne_of_gt hm)

/-! ## Exact decimals -/

theorem two_pow_lt_ten_pow {n k : Nat} (hk : k ≠ 0) (hn : n ≤ 3 * k) : 2 ^ n < 10 ^ k := by
  calc 2 ^ n ≤ 2 ^ (3 * k) := Nat.pow_le_pow_right (by decide) hn
    _ = (2 ^ 3) ^ k := Nat.pow_mul ..
    _ < 10 ^ k := Nat.pow_lt_pow_left (by decide) hk

theorem not_reaches_exact {s : Sign} {m : Nat} {e : Int} {hm : 0 < m}
    (h : Canonical (.finite s m e hm)) {k : Nat} (hk : 400 ≤ k) :
    (Decimal.exact m e).reaches k = false := by
  obtain ⟨hlt, hle, -⟩ := h
  unfold Decimal.exact Decimal.reaches
  rw [decide_eq_false_iff_not, Nat.not_le]
  by_cases he : 0 ≤ e
  · rw [if_pos he]
    have hpos : 0 < 2 ^ e.toNat := Nat.pow_pos (by decide)
    calc m * 2 ^ e.toNat * 10 ^ (0 : Int).toNat = m * 2 ^ e.toNat := Nat.mul_one _
      _ < 2 ^ 53 * 2 ^ e.toNat := Nat.mul_lt_mul_of_pos_right hlt hpos
      _ = 2 ^ (53 + e.toNat) := (Nat.pow_add ..).symm
      _ < 10 ^ k := two_pow_lt_ten_pow (by omega) (by omega)
  · rw [if_neg he]
    have hpow : 5 ^ (-e).toNat ≤ 10 ^ (-e).toNat := Nat.pow_le_pow_left (by decide) _
    have hpos : 0 < 10 ^ (-e).toNat := Nat.pow_pos (by decide)
    have hzero : e.toNat = 0 := by omega
    calc m * 5 ^ (-e).toNat * 10 ^ e.toNat = m * 5 ^ (-e).toNat := by rw [hzero]; exact Nat.mul_one _
      _ ≤ m * 10 ^ (-e).toNat := Nat.mul_le_mul_left m hpow
      _ < 10 ^ k * 10 ^ (-e).toNat := Nat.mul_lt_mul_of_pos_right
        (hlt.trans (two_pow_lt_ten_pow (by omega) (by omega))) hpos
      _ = 10 ^ (k + (-e).toNat) := (Nat.pow_add ..).symm

theorem two_pow_exponentBits : (2 ^ Format.binary64.exponentBits : Int) = 2048 := rfl

theorem ofScientific_exact_of_nonneg {m : Nat} {e : Int} {hm : 0 < m}
    (h : Canonical (.finite .positive m e hm)) (he : 0 ≤ e) :
    UnpackedFloat.ofScientific .binary64 (m * 2 ^ e.toNat) 0 = .finite .positive m e hm := by
  have hpos : 0 < m * 2 ^ e.toNat := Nat.mul_pos hm (Nat.pow_pos (by decide))
  change UnpackedFloat.ofScientific .binary64 (m * 2 ^ e.toNat) (0 : Nat) = _
  rw [Decimal.ofScientific_eq (Nat.ne_of_gt hpos) (Nat.zero_le 2048), Nat.pow_eq, Nat.shiftLeft_eq,
    Nat.pow_zero, Nat.mul_one, Nat.mul_assoc, ← Nat.pow_add]
  have hexponent : (-53 : Int) = e - ((e.toNat + 53 : Nat) : Int) := by omega
  rw [hexponent]
  exact roundWithAccuracy_canonical h _

theorem log2_mul_le {a b : Nat} (ha : 0 < a) (hb : 0 < b) :
    (a * b).log2 ≤ a.log2 + b.log2 + 1 := by
  rw [← Nat.lt_succ_iff, Nat.log2_lt (Nat.ne_of_gt (Nat.mul_pos ha hb))]
  calc a * b < 2 ^ (a.log2 + 1) * 2 ^ (b.log2 + 1) :=
        Nat.mul_lt_mul_of_lt_of_le Nat.lt_log2_self (Nat.le_of_lt Nat.lt_log2_self)
          (Nat.pow_pos (by decide))
    _ = 2 ^ (a.log2 + b.log2 + 2) := by rw [← Nat.pow_add]; congr 1; omega

theorem log2_ten_pow (k : Nat) : (10 ^ k).log2 = (5 ^ k).log2 + k := by
  have hten : 10 ^ k = 5 ^ k * 2 ^ k := by rw [← Nat.mul_pow]
  rw [hten, log2_mul_two_pow (Nat.pow_pos (by decide))]

theorem mul_five_pow_shiftLeft (m k j : Nat) :
    (m * 5 ^ k) <<< (k + j) = m * 2 ^ j * 10 ^ k := by
  have hten : 10 ^ k = 5 ^ k * 2 ^ k := by rw [← Nat.mul_pow]
  rw [Nat.shiftLeft_eq, hten, Nat.pow_add]
  ring

theorem targetExponent_quotient (a b : Nat) :
    Format.binary64.targetExponent (totalExponent a 0 - totalExponent b 0) =
      max ((a.log2 : Int) - b.log2 - 53) (-1074) := by
  unfold Format.targetExponent totalExponent
  change max ((a.log2 : Int) + 1 + 0 - (b.log2 + 1 + 0) - 53) (-1074) = _
  omega

theorem divCore_exact {m k : Nat} {hm : 0 < m} (hk : 0 < k)
    (h : Canonical (.finite .positive m (-k : Int) hm)) :
    ∃ j : Nat, UnpackedFloat.divCore .binary64 (m * 5 ^ k) 0 (10 ^ k) 0 =
      (m * 2 ^ j, (-k : Int) - j, .exact) := by
  obtain ⟨hlt, -, hshape⟩ := h
  have hbits := (Nat.log2_lt (Nat.ne_of_gt hm)).mpr hlt
  have hproduct : (m * 5 ^ k).log2 ≤ m.log2 + (5 ^ k).log2 + 1 :=
    log2_mul_le hm (Nat.pow_pos (by decide))
  have htarget : ∃ j : Nat,
      max (((m * 5 ^ k).log2 : Int) - (10 ^ k).log2 - 53) (-1074) = -k - j := by
    rw [log2_ten_pow k]
    generalize (m * 5 ^ k).log2 = product at *
    generalize (5 ^ k).log2 = power at *
    generalize m.log2 = bits at *
    refine ⟨(-k - max ((product : Int) - ((power + k : Nat) : Int) - 53) (-1074)).toNat, ?_⟩
    omega
  obtain ⟨j, htarget⟩ := htarget
  refine ⟨j, ?_⟩
  unfold UnpackedFloat.divCore
  have hmin : min ((0 : Int) - 0) (-k - j) = -k - j := by omega
  have hshift : ((0 : Int) - 0 - (-k - j)).toNat = k + j := by omega
  have hpos : 0 < 10 ^ k := Nat.pow_pos (by decide)
  -- The power of ten goes into the shifted number, so that nothing is left over.
  simp only [targetExponent_quotient, htarget, hmin, hshift, mul_five_pow_shiftLeft]
  rw [Nat.mul_div_cancel _ hpos, Nat.mul_mod_left]
  rfl

theorem ofScientific_exact_of_neg {m k : Nat} {hm : 0 < m} (hk : 0 < k)
    (h : Canonical (.finite .positive m (-k : Int) hm)) :
    UnpackedFloat.ofScientific .binary64 (m * 5 ^ k) (-k : Int) = .finite .positive m (-k : Int) hm := by
  have hpos : 0 < m * 5 ^ k := Nat.mul_pos hm (Nat.pow_pos (by decide))
  have hbits := two_pow_exponentBits
  have hrange : k ≤ 1074 := by
    obtain ⟨-, -, hshape⟩ := h
    omega
  unfold UnpackedFloat.ofScientific
  rw [dif_neg (Nat.ne_of_gt hpos), if_neg (by omega), if_neg (by omega), if_neg (by omega)]
  unfold UnpackedFloat.div
  obtain ⟨j, hdiv⟩ := divCore_exact hk h
  have hpower : (- -(k : Int)).toNat = k := by omega
  simp only [hpower, hdiv]
  exact roundWithAccuracy_canonical h j

/-- The exact decimal of a finite double reads back as its magnitude. -/
theorem toFloat_exact {x : Float} {s : Sign} {m : Nat} {e : Int} {hm : 0 < m}
    (hx : x.toModel.unpack = .finite s m e hm) : (Decimal.exact m e).toFloat = x.abs := by
  have hcanonical : Canonical (.finite s m e hm) := hx ▸ canonical_unpack x.toModel
  have hpositive : Canonical (.finite .positive m e hm) := hcanonical
  refine ext_unpack ?_
  rw [unpack_abs, hx]
  unfold Decimal.toFloat
  rw [not_reaches_exact hcanonical (Nat.le_refl 400)]
  have hread : UnpackedFloat.ofScientific .binary64 (Decimal.exact m e).digits
      (Decimal.exact m e).exponent = .finite .positive m e hm := by
    unfold Decimal.exact
    by_cases he : 0 ≤ e
    · rw [if_pos he]
      exact ofScientific_exact_of_nonneg hpositive he
    · obtain ⟨k, rfl⟩ : ∃ k : Nat, e = -k := ⟨(-e).toNat, by omega⟩
      rw [if_neg he, Int.neg_neg, Int.toNat_natCast]
      exact ofScientific_exact_of_neg (by omega) hpositive
  change (Float.Model.pack (UnpackedFloat.ofScientific .binary64 _ _)).unpack = _
  rw [hread, unpack_pack hpositive]
  rfl

end CommandScript.Double
