import CommandScript.Arithmetic
import CommandScript.Proofs.Double.Rounding

/-!
What doubles mean. A double is no number, infinite, or exactly a rational number. The main statements are
that doubles are in the order of their meanings, and that the double without its fraction and the word
that is made of it are the rational without its fraction.
-/

namespace CommandScript.Double
set_option autoImplicit false

open Float.Model (UnpackedFloat)
open Float.Model.UnpackedFloat (Sign ExtendedMantissa)

/-! ## Meanings -/

inductive Meaning where
  | notANumber
  | infinite (s : Sign)
  | rational (q : ℚ)

/-- The rational number `m · 2 ^ e`. -/
def magnitude (m : Nat) (e : Int) : ℚ := m * 2 ^ e

/-- The number with a sign. -/
def withSign : Sign → ℚ → ℚ
  | .positive, q => q
  | .negative, q => -q

def meaningOf : UnpackedFloat → Meaning
  | .notANumber => .notANumber
  | .infinity s => .infinite s
  | .zero _ => .rational 0
  | .finite s m e _ => .rational (withSign s (magnitude m e))

/-- What a double means. The two zeros mean the same. -/
def meaning (x : Float) : Meaning := meaningOf x.toModel.unpack

theorem isNaN_iff (x : Float) : x.isNaN = true ↔ meaning x = .notANumber := by
  unfold meaning
  change x.toModel.unpack.isNaN = true ↔ _
  cases x.toModel.unpack <;> simp [meaningOf, UnpackedFloat.isNaN]

@[simp] theorem meaning_zero : meaning 0 = .rational 0 := rfl

theorem magnitude_pos {m : Nat} (hm : 0 < m) (e : Int) : 0 < magnitude m e :=
  mul_pos (Nat.cast_pos.mpr hm) (zpow_pos two_pos e)

/-! ## The order of canonical forms -/

/-- Of two canonical magnitudes the one with the greater exponent is the greater one. -/
theorem magnitude_lt_of_exponent {s s' : Sign} {m m' : Nat} {e e' : Int} {hm : 0 < m} {hm' : 0 < m'}
    (h : Canonical (.finite s m e hm)) (h' : Canonical (.finite s' m' e' hm')) (hlt : e < e') :
    magnitude m e < magnitude m' e' := by
  obtain ⟨hlow, -, hshape⟩ := h
  obtain ⟨-, -, hshape'⟩ := h'
  have hfull : 2 ^ 52 ≤ m' := by omega
  calc magnitude m e < (2 ^ 53 : Nat) * 2 ^ e :=
        mul_lt_mul_of_pos_right (Nat.cast_lt.mpr hlow) (zpow_pos two_pos e)
    _ = (2 ^ 52 : Nat) * 2 ^ (e + 1) := by
        rw [zpow_add₀ two_ne_zero]
        push_cast
        ring
    _ ≤ (2 ^ 52 : Nat) * 2 ^ e' :=
        mul_le_mul_of_nonneg_left (zpow_le_zpow_right₀ one_le_two hlt) (Nat.cast_nonneg _)
    _ ≤ magnitude m' e' :=
        mul_le_mul_of_nonneg_right (Nat.cast_le.mpr hfull) (zpow_pos two_pos e').le

theorem compare_magnitude {s s' : Sign} {m m' : Nat} {e e' : Int} {hm : 0 < m} {hm' : 0 < m'}
    (h : Canonical (.finite s m e hm)) (h' : Canonical (.finite s' m' e' hm')) :
    (compare e e').then (compare m m') = compare (magnitude m e) (magnitude m' e') := by
  rcases lt_trichotomy e e' with hlt | rfl | hgt
  · rw [compare_lt_iff_lt.mpr hlt, compare_lt_iff_lt.mpr (magnitude_lt_of_exponent h h' hlt)]
    rfl
  · have hpos : (0 : ℚ) < 2 ^ e := zpow_pos two_pos e
    rw [compare_eq_iff_eq.mpr rfl]
    change compare m m' = _
    rcases lt_trichotomy m m' with hlt | rfl | hgt
    · have hmul : magnitude m e < magnitude m' e :=
        mul_lt_mul_of_pos_right (Nat.cast_lt.mpr hlt) hpos
      rw [compare_lt_iff_lt.mpr hlt, compare_lt_iff_lt.mpr hmul]
    · rw [compare_eq_iff_eq.mpr rfl, compare_eq_iff_eq.mpr rfl]
    · have hmul : magnitude m' e < magnitude m e :=
        mul_lt_mul_of_pos_right (Nat.cast_lt.mpr hgt) hpos
      rw [compare_gt_iff_gt.mpr hgt, compare_gt_iff_gt.mpr hmul]
  · rw [compare_gt_iff_gt.mpr hgt, compare_gt_iff_gt.mpr (magnitude_lt_of_exponent h' h hgt)]
    rfl

theorem compare_neg_neg (p q : ℚ) : compare (-p) (-q) = (compare p q).swap := by
  rcases lt_trichotomy p q with hlt | rfl | hgt
  · rw [compare_lt_iff_lt.mpr hlt, compare_gt_iff_gt.mpr (neg_lt_neg hlt)]
    rfl
  · rw [compare_eq_iff_eq.mpr rfl, compare_eq_iff_eq.mpr rfl]
    rfl
  · rw [compare_gt_iff_gt.mpr hgt, compare_lt_iff_lt.mpr (neg_lt_neg hgt)]
    rfl

theorem compare_zero_finite (s s' : Sign) {m : Nat} (e : Int) (hm : 0 < m) :
    (UnpackedFloat.zero s').compare (.finite s m e hm) =
      some (compare 0 (withSign s (magnitude m e))) := by
  have hpos := magnitude_pos hm e
  cases s with
  | positive => rw [withSign, compare_lt_iff_lt.mpr hpos]; rfl
  | negative => rw [withSign, compare_gt_iff_gt.mpr (neg_neg_of_pos hpos)]; rfl

theorem compare_finite_zero (s s' : Sign) {m : Nat} (e : Int) (hm : 0 < m) :
    (UnpackedFloat.finite s m e hm).compare (.zero s') =
      some (compare (withSign s (magnitude m e)) 0) := by
  have hpos := magnitude_pos hm e
  cases s with
  | positive => rw [withSign, compare_gt_iff_gt.mpr hpos]; rfl
  | negative => rw [withSign, compare_lt_iff_lt.mpr (neg_neg_of_pos hpos)]; rfl

theorem compare_finite {s s' : Sign} {m m' : Nat} {e e' : Int} {hm : 0 < m} {hm' : 0 < m'}
    (h : Canonical (.finite s m e hm)) (h' : Canonical (.finite s' m' e' hm')) :
    (UnpackedFloat.finite s m e hm).compare (.finite s' m' e' hm') =
      some (compare (withSign s (magnitude m e)) (withSign s' (magnitude m' e'))) := by
  have hpos := magnitude_pos hm e
  have hpos' := magnitude_pos hm' e'
  cases s with
  | positive =>
    cases s' with
    | positive =>
      rw [withSign, withSign, ← compare_magnitude h h']
      rfl
    | negative =>
      have hlt : -magnitude m' e' < magnitude m e := (neg_neg_of_pos hpos').trans hpos
      rw [withSign, withSign, compare_gt_iff_gt.mpr hlt]
      rfl
  | negative =>
    cases s' with
    | positive =>
      have hlt : -magnitude m e < magnitude m' e' := (neg_neg_of_pos hpos).trans hpos'
      rw [withSign, withSign, compare_lt_iff_lt.mpr hlt]
      rfl
    | negative =>
      rw [withSign, withSign, compare_neg_neg, ← compare_magnitude h h']
      rfl

/-- How two doubles compare, if they do. -/
def Meaning.compare? : Meaning → Meaning → Option Ordering
  | .notANumber, _ | _, .notANumber => none
  | .infinite s, .infinite s' => some (compare s s')
  | .infinite .positive, .rational _ | .rational _, .infinite .negative => some .gt
  | .infinite .negative, .rational _ | .rational _, .infinite .positive => some .lt
  | .rational p, .rational q => some (compare p q)

theorem compare_unpacked {u v : UnpackedFloat} (hu : Canonical u) (hv : Canonical v) :
    u.compare v = (meaningOf u).compare? (meaningOf v) := by
  cases u with
  | notANumber => cases v <;> rfl
  | infinity s => cases s <;> cases v <;> rfl
  | zero s =>
    cases v with
    | notANumber => rfl
    | infinity s' => cases s' <;> rfl
    | zero s' =>
      change some Ordering.eq = some (compare (0 : ℚ) 0)
      rw [compare_eq_iff_eq.mpr rfl]
    | finite s' m' e' hm' => exact compare_zero_finite s' s e' hm'
  | finite s m e hm =>
    cases v with
    | notANumber => rfl
    | infinity s' => cases s' <;> cases s <;> rfl
    | zero s' => exact compare_finite_zero s s' e hm
    | finite s' m' e' hm' => exact compare_finite hu hv

theorem lt_iff (x y : Float) : x < y ↔ (meaning x).compare? (meaning y) = some .lt := by
  change decide (x.toModel.unpack.lt y.toModel.unpack = true) = true ↔ _
  rw [decide_eq_true_iff, UnpackedFloat.lt, beq_iff_eq, compare_unpacked (canonical_unpack _)
    (canonical_unpack _)]
  rfl

theorem le_iff (x y : Float) :
    x ≤ y ↔ ((meaning x).compare? (meaning y)).any Ordering.isLE = true := by
  change decide (x.toModel.unpack.le y.toModel.unpack = true) = true ↔ _
  rw [decide_eq_true_iff, UnpackedFloat.le, compare_unpacked (canonical_unpack _)
    (canonical_unpack _)]
  rfl

theorem beq_iff (x y : Float) :
    (x == y) = true ↔ (meaning x).compare? (meaning y) = some .eq := by
  change x.toModel.unpack.beq y.toModel.unpack = true ↔ _
  rw [UnpackedFloat.beq, beq_iff_eq, compare_unpacked (canonical_unpack _) (canonical_unpack _)]
  rfl

theorem beq_zero_iff (x : Float) : (x == 0) = true ↔ meaning x = .rational 0 := by
  rw [beq_iff, meaning_zero]
  cases meaning x with
  | notANumber => exact iff_of_false nofun nofun
  | infinite s => cases s <;> exact iff_of_false nofun nofun
  | rational q => rw [Meaning.compare?, Option.some_inj, compare_eq_iff_eq, Meaning.rational.injEq]

/-- Doubles that are rationals are in the order of these. -/
theorem lt_iff_of_rational {x y : Float} {p q : ℚ} (hx : meaning x = .rational p)
    (hy : meaning y = .rational q) : x < y ↔ p < q := by
  rw [lt_iff, hx, hy, Meaning.compare?, Option.some_inj, compare_lt_iff_lt]

theorem le_iff_of_rational {x y : Float} {p q : ℚ} (hx : meaning x = .rational p)
    (hy : meaning y = .rational q) : x ≤ y ↔ p ≤ q := by
  rw [le_iff, hx, hy, Meaning.compare?, Option.any_some, Ordering.isLE_iff_ne_gt]
  exact compare_le_iff_le

/-! ## Whole parts -/

theorem floor_magnitude (m : Nat) (e : Int) : ⌊magnitude m e⌋ = Number.wholePart m e := by
  unfold Number.wholePart magnitude
  rcases Int.le_total 0 e with he | he
  · obtain ⟨k, rfl⟩ := Int.eq_ofNat_of_zero_le he
    have hcast : (m : ℚ) * 2 ^ (k : Int) = ((m * 2 ^ k : Nat) : ℚ) := by push_cast; rfl
    rw [hcast, Int.floor_natCast, Int.toNat_natCast, Int.toNat_neg_natCast]
    simp
  · obtain ⟨k, rfl⟩ : ∃ k : Nat, e = -k := ⟨(-e).toNat, by omega⟩
    have hcast : (m : ℚ) * 2 ^ (-k : Int) = (m : ℚ) / ((2 ^ k : Nat) : ℚ) := by
      rw [zpow_neg, zpow_natCast, ← div_eq_mul_inv]
      push_cast
      rfl
    rw [hcast, Int.neg_neg, Int.toNat_natCast, Int.toNat_neg_natCast, Rat.floor_natCast_div_natCast]
    simp

theorem mantissa_shiftRight (x : ExtendedMantissa) (k : Nat) :
    (x >>> k).mantissa = x.mantissa / 2 ^ k := by
  induction k with
  | zero =>
    rw [Nat.pow_zero, Nat.div_one]
    rfl
  | succ k ih =>
    change (x >>> k).mantissa / 2 = _
    rw [ih, Nat.div_div_eq_div_mul, Nat.pow_succ]

theorem roundToInt_positive (m : Nat) (e : Int) :
    UnpackedFloat.roundToInt .positive m e = Number.wholePart m e := by
  have hshift : (0 - (e - ((e - 0).toNat : Int))).toNat = (-e).toNat := by omega
  change (((⟨m <<< (e - 0).toNat, false, false⟩ : ExtendedMantissa) >>>
    (0 - (e - ((e - 0).toNat : Int))).toNat).mantissa : Int) = _
  rw [mantissa_shiftRight, hshift, Nat.shiftLeft_eq, Int.sub_zero]
  rfl

/-- A double that is a natural number becomes that word, if it is one. -/
theorem toUInt64_of_natural {x : Float} {n : Nat} (hx : meaning x = .rational n)
    (hn : n < UInt64.size) : x.toUInt64.toNat = n := by
  unfold meaning at hx
  change (UInt64.ofNatClamp (UnpackedFloat.toInt 0 (UInt64.size - 1) x.toModel.unpack).toNat).toNat = n
  cases hu : x.toModel.unpack with
  | notANumber | infinity _ =>
    rw [hu] at hx
    exact nomatch hx
  | zero s =>
    rw [hu] at hx
    have hzero : (0 : ℚ) = n := Meaning.rational.inj hx
    rw [Nat.cast_eq_zero.mp hzero.symm]
    rfl
  | finite s m e hm =>
    rw [hu] at hx
    have hpos := magnitude_pos hm e
    cases s with
    | positive =>
      have hvalue : magnitude m e = n := Meaning.rational.inj hx
      have hwhole : (Number.wholePart m e : Int) = n := by
        rw [← floor_magnitude, hvalue, Int.floor_natCast]
      change (UInt64.ofNatClamp (UnpackedFloat.roundToInt .positive m e).toNat).toNat = n
      rw [roundToInt_positive, hwhole, Int.toNat_natCast, UInt64.ofNatClamp, dif_pos hn]
      rfl
    | negative =>
      have hvalue : -magnitude m e = n := Meaning.rational.inj hx
      have hnonneg : (0 : ℚ) ≤ n := Nat.cast_nonneg n
      rw [← hvalue] at hnonneg
      exact absurd hnonneg (not_le.mpr (neg_neg_of_pos hpos))

/-! ## Numbers without their fractions -/

theorem not_reaches_natural {n k : Nat} (hn : n < 2 ^ 53) (hk : 400 ≤ k) :
    Decimal.reaches ⟨n, 0⟩ k = false := by
  unfold Decimal.reaches
  rw [decide_eq_false_iff_not, Nat.not_le]
  calc n * 10 ^ (0 : Int).toNat = n := Nat.mul_one n
    _ < 10 ^ k := hn.trans (two_pow_lt_ten_pow (by omega) (by omega))

/-- A natural number that the significand has room for, as a canonical form. -/
theorem ofScientific_natural {n : Nat} (hpos : 0 < n) (hn : n < 2 ^ 53) :
    ∃ (m j : Nat) (hm : 0 < m), m = n * 2 ^ j ∧ Canonical (.finite .positive m (-j) hm) ∧
      UnpackedFloat.ofScientific .binary64 n 0 = .finite .positive m (-j) hm := by
  have hlog : n.log2 < 53 := (Nat.log2_lt (Nat.ne_of_gt hpos)).mpr hn
  obtain ⟨j, hj⟩ : ∃ j, n.log2 + j = 52 := ⟨52 - n.log2, by omega⟩
  have hlow : 2 ^ 52 ≤ n * 2 ^ j := by
    rw [← hj, Nat.pow_add]
    exact Nat.mul_le_mul_right _ (Nat.log2_self_le (Nat.ne_of_gt hpos))
  have hhigh : n * 2 ^ j < 2 ^ 53 := by
    have hsum : 53 = n.log2 + 1 + j := by omega
    rw [hsum, Nat.pow_add]
    exact Nat.mul_lt_mul_of_pos_right Nat.lt_log2_self (Nat.pow_pos (by decide))
  have hm : 0 < n * 2 ^ j := Nat.mul_pos hpos (Nat.pow_pos (by decide))
  have hcanonical : Canonical (.finite .positive (n * 2 ^ j) (-j : Int) hm) :=
    ⟨hhigh, by omega, .inl ⟨hlow, by omega⟩⟩
  refine ⟨n * 2 ^ j, j, hm, rfl, hcanonical, ?_⟩
  have hshift : n <<< 53 * Nat.pow 10 0 = n * 2 ^ j * 2 ^ (53 - j) := by
    rw [Nat.pow_eq, Nat.pow_zero, Nat.mul_one, Nat.shiftLeft_eq, Nat.mul_assoc, ← Nat.pow_add,
      Nat.add_sub_cancel' (by omega)]
  have hexponent : (-53 : Int) = -j - ((53 - j : Nat) : Int) := by omega
  change UnpackedFloat.ofScientific .binary64 n (0 : Nat) = _
  rw [Decimal.ofScientific_eq (Nat.ne_of_gt hpos) (Nat.zero_le _), hshift, hexponent]
  exact roundWithAccuracy_canonical hcanonical (53 - j)

theorem meaning_natural {n : Nat} (hn : n < 2 ^ 53) :
    meaning (Decimal.toFloat ⟨n, 0⟩) = .rational n := by
  unfold meaning Decimal.toFloat
  rw [not_reaches_natural hn (Nat.le_refl 400)]
  change meaningOf (Float.Model.pack (UnpackedFloat.ofScientific .binary64 n 0)).unpack = _
  rcases Nat.eq_zero_or_pos n with rfl | hpos
  · have hzero : UnpackedFloat.ofScientific .binary64 0 0 = .zero .positive := rfl
    have hcanonical : Canonical (.zero .positive) := trivial
    rw [hzero, unpack_pack hcanonical, Nat.cast_zero]
    rfl
  · obtain ⟨m, j, hm, rfl, hcanonical, hread⟩ := ofScientific_natural hpos hn
    have hvalue : magnitude (n * 2 ^ j) (-j) = n := by
      unfold magnitude
      rw [zpow_neg, zpow_natCast, Nat.cast_mul, Nat.cast_pow, Nat.cast_two,
        mul_inv_cancel_right₀ (pow_ne_zero j two_ne_zero)]
    rw [hread, unpack_pack hcanonical, meaningOf, withSign, hvalue]

theorem meaning_ofWholePart {s : Sign} {m : Nat} {e : Int} {hm : 0 < m}
    (h : Canonical (.finite s m e hm)) :
    meaning (Number.ofWholePart m e) = .rational (Number.wholePart m e) := by
  rcases Int.le_total 0 e with he | he
  · -- Without a fraction the number is the double itself, however large.
    have hpositive : Canonical (.finite .positive m e hm) := h
    let x : Float := .ofModel (.pack (.finite .positive m e hm))
    have hx : x.toModel.unpack = .finite .positive m e hm := unpack_pack hpositive
    have hwhole : Number.wholePart m e = m * 2 ^ e.toNat := by
      unfold Number.wholePart
      rw [Int.toNat_of_nonpos (Int.neg_nonpos_of_nonneg he)]
      exact Nat.div_one _
    have hexact : Number.ofWholePart m e = (Decimal.exact m e).toFloat := by
      unfold Number.ofWholePart Decimal.exact
      rw [hwhole, if_pos he]
      rfl
    have hvalue : magnitude m e = Number.wholePart m e := by
      obtain ⟨k, rfl⟩ := Int.eq_ofNat_of_zero_le he
      rw [hwhole, Int.toNat_natCast]
      unfold magnitude
      push_cast
      rfl
    rw [hexact, toFloat_exact hx, meaning, unpack_abs, hx, ← hvalue]
    rfl
  · obtain ⟨hlow, -, -⟩ := h
    have hle : Number.wholePart m e ≤ m := by
      unfold Number.wholePart
      rw [Int.toNat_of_nonpos he]
      exact (Nat.div_le_self _ _).trans (Nat.mul_one m).le
    exact meaning_natural (hle.trans_lt hlow)

theorem meaning_neg {x : Float} {q : ℚ} (hx : meaning x = .rational q) :
    meaning (-x) = .rational (-q) := by
  unfold meaning at hx ⊢
  rw [unpack_neg]
  cases hu : x.toModel.unpack with
  | notANumber | infinity _ =>
    rw [hu] at hx
    exact nomatch hx
  | zero s =>
    rw [hu] at hx
    rw [← Meaning.rational.inj hx, neg_zero]
    rfl
  | finite s m e hm =>
    rw [hu] at hx
    rw [← Meaning.rational.inj hx]
    cases s with
    | positive => rfl
    | negative =>
      rw [withSign, InvolutiveNeg.neg_neg]
      rfl

/-- The integer next to a rational on the side of zero. -/
def truncation (q : ℚ) : Int := if 0 ≤ q then ⌊q⌋ else ⌈q⌉

/-- What is left without the fraction. -/
def Meaning.truncated : Meaning → Meaning
  | .rational q => .rational (truncation q)
  | other => other

theorem meaning_truncated (x : Float) : meaning (truncated x) = (meaning x).truncated := by
  have hcanonical := canonical_unpack x.toModel
  have hx : meaning x = meaningOf x.toModel.unpack := rfl
  unfold truncated
  cases hu : x.toModel.unpack with
  | notANumber | infinity _ =>
    rw [hu] at hx
    dsimp only
    rw [hx]
    rfl
  | zero s =>
    rw [hu] at hx
    dsimp only
    rw [hx, meaningOf, Meaning.truncated, truncation, if_pos le_rfl, Int.floor_zero, Int.cast_zero]
  | finite s m e hm =>
    rw [hu] at hx hcanonical
    have hpos := magnitude_pos hm e
    have hwhole := meaning_ofWholePart hcanonical
    cases s with
    | positive =>
      dsimp only
      rw [hx, hwhole, meaningOf, Meaning.truncated, withSign, truncation, if_pos hpos.le,
        floor_magnitude, Int.cast_natCast]
    | negative =>
      dsimp only
      rw [hx, meaning_neg hwhole, meaningOf, Meaning.truncated, withSign, truncation,
        if_neg (not_le.mpr (neg_neg_of_pos hpos)), Int.ceil_neg, floor_magnitude, Int.cast_neg,
        Int.cast_natCast]

end CommandScript.Double
