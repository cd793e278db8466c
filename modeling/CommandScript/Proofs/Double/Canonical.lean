import Mathlib

/-!
Doubles and their unpacked forms. What a double unpacks to is canonical, that is, it has as many
bits as a double has room for; packing a canonical form loses nothing. The main statements are that
negating twice changes nothing, and that a double is its magnitude with its sign.
-/

namespace CommandScript.Double
set_option autoImplicit false

open Float.Model (Format UnpackedFloat)
open Float.Model.UnpackedFloat (Sign packComponents)

/-! ## Canonical forms -/

/-- A finite form is canonical if its significand has 53 bits, or fewer with the least exponent. -/
def Canonical : UnpackedFloat → Prop
  | .finite _ m e _ => m < 2 ^ 53 ∧ e ≤ 971 ∧ (2 ^ 52 ≤ m ∧ -1074 ≤ e ∨ e = -1074)
  | _ => True

theorem toNat_implicit_append (m : BitVec 52) : (1#1 ++ m).toNat = 2 ^ 52 + m.toNat := by
  rw [BitVec.toNat_append, ← Nat.shiftLeft_add_eq_or_of_lt m.isLt]
  rfl

theorem canonical_unpack (x : Float.Model) : Canonical x.unpack := by
  unfold Float.Model.unpack
  generalize x.toBits.toBitVec = bits
  fun_cases UnpackedFloat.unpack with
  | case1 | case2 | case3 => trivial
  | case4 mantissa exponent e sign s hlow hzero hmantissa =>
    have hm : mantissa.toNat < 2 ^ 52 := mantissa.isLt
    have he : e = -1075 := by
      change (exponent.toNat : Int) - 1075 = -1075
      rw [hzero]
      rfl
    refine ⟨by omega, by omega, .inr (by omega)⟩
  | case5 mantissa exponent e sign s hinf hzero =>
    have hm : mantissa.toNat < 2 ^ 52 := mantissa.isLt
    have he : e = (exponent.toNat : Int) - 1075 := rfl
    have hlt : exponent.toNat < 2048 := exponent.isLt
    have hne : exponent.toNat ≠ 2047 := fun h => hinf (BitVec.eq_of_toNat_eq h)
    have hpos : exponent.toNat ≠ 0 := fun h => hzero (BitVec.eq_of_toNat_eq h)
    have happend := toNat_implicit_append mantissa
    refine ⟨by omega, by omega, .inl ⟨by omega, by omega⟩⟩

theorem finite_congr (s : Sign) {m m' : Nat} {e e' : Int} (hm : 0 < m) (hm' : 0 < m')
    (h : m = m') (he : e = e') : UnpackedFloat.finite s m e hm = .finite s m' e' hm' := by
  subst h he
  rfl

theorem unpack_packComponents_normal (s : Sign) {m : Nat} {e : Int} (hm : 0 < m)
    (hlow : 2 ^ 52 ≤ m) (hhigh : m < 2 ^ 53) (he : -1074 ≤ e) (he' : e ≤ 971) :
    UnpackedFloat.unpack .binary64
      (packComponents .binary64 s (BitVec.ofNat 11 (e + 1075).toNat) (BitVec.ofNat 52 m)) =
      .finite s m e hm := by
  have hfield : (BitVec.ofNat 11 (e + 1075).toNat).toNat = (e + 1075).toNat := by
    rw [BitVec.toNat_ofNat, Nat.mod_eq_of_lt (by omega)]
  have hinf : BitVec.ofNat 11 (e + 1075).toNat ≠ -1#11 := by
    intro h
    have h' : (BitVec.ofNat 11 (e + 1075).toNat).toNat = 2047 := congrArg BitVec.toNat h
    omega
  have hzero : BitVec.ofNat 11 (e + 1075).toNat ≠ 0#11 := by
    intro h
    have h' : (BitVec.ofNat 11 (e + 1075).toNat).toNat = 0 := congrArg BitVec.toNat h
    omega
  unfold UnpackedFloat.unpack
  simp only [UnpackedFloat.unpackExponent_packComponents, UnpackedFloat.unpackMantissa_packComponents,
    UnpackedFloat.unpackSign_packComponents, Sign.ofBitVec_toBitVec]
  rw [if_neg hinf, if_neg hzero]
  refine finite_congr s _ hm ?_ ?_
  · rw [toNat_implicit_append, BitVec.toNat_ofNat]
    omega
  · rw [hfield]
    change ((e + 1075).toNat : Int) - 1075 = e
    omega

theorem unpack_packComponents_subnormal (s : Sign) {m : Nat} (hm : 0 < m) (hhigh : m < 2 ^ 52) :
    UnpackedFloat.unpack .binary64 (packComponents .binary64 s 0#11 (BitVec.ofNat 52 m)) =
      .finite s m (-1074) hm := by
  have hfraction : (BitVec.ofNat 52 m).toNat = m := by
    rw [BitVec.toNat_ofNat, Nat.mod_eq_of_lt hhigh]
  have hzero : BitVec.ofNat 52 m ≠ 0#52 := by
    intro h
    have h' : (BitVec.ofNat 52 m).toNat = 0 := congrArg BitVec.toNat h
    omega
  unfold UnpackedFloat.unpack
  simp only [UnpackedFloat.unpackExponent_packComponents, UnpackedFloat.unpackMantissa_packComponents,
    UnpackedFloat.unpackSign_packComponents, Sign.ofBitVec_toBitVec]
  rw [if_neg (by decide), if_pos trivial, dif_neg hzero]
  exact finite_congr s _ hm hfraction rfl

theorem log2_eq_52 {m : Nat} (hlow : 2 ^ 52 ≤ m) (hhigh : m < 2 ^ 53) : m.log2 = 52 := by
  have hlo := (Nat.le_log2 (by omega)).mpr hlow
  have hhi := (Nat.log2_lt (by omega)).mpr hhigh
  omega

/-- Packing a canonical form loses nothing. -/
theorem unpack_pack {u : UnpackedFloat} (hu : Canonical u) : (Float.Model.pack u).unpack = u := by
  change UnpackedFloat.unpack .binary64 (UnpackedFloat.pack .binary64 u) = u
  cases u with
  | infinity s =>
    simp [UnpackedFloat.unpack, UnpackedFloat.pack, UnpackedFloat.packedInfinity]
  | notANumber => exact UnpackedFloat.unpack_packedNaN
  | zero s => exact UnpackedFloat.unpack_packedZero
  | finite s m e hm =>
    obtain ⟨hlt, hle, hshape⟩ := hu
    have hfield : (e + (1023 : Nat) + (52 : Nat)).toNat = (e + 1075).toNat := by
      omega
    have hbits : Format.binary64.mantissaBits = 53 := rfl
    have hbias : Format.binary64.exponentBias = 1023 := rfl
    unfold UnpackedFloat.pack
    simp only [hbits, hbias, hfield]
    rw [if_neg (by omega)]
    by_cases hnormal : 2 ^ 52 ≤ m
    · rw [if_pos (by rw [log2_eq_52 hnormal hlt])]
      exact unpack_packComponents_normal s hm hnormal hlt (by omega) hle
    · have hfewer := (Nat.log2_lt (by omega)).mpr (Nat.lt_of_not_le hnormal)
      obtain rfl : e = -1074 := by omega
      rw [if_neg (by omega)]
      exact unpack_packComponents_subnormal s hm (by omega)

/-! ## Signs -/

@[simp] theorem pack_unpack (x : Float.Model) : Float.Model.pack x.unpack = x := by
  obtain ⟨bits, hvalid⟩ := x
  unfold Float.Model.pack Float.Model.unpack
  congr 1
  exact UInt64.toBitVec_inj.mp (UnpackedFloat.pack_unpack_of_valid hvalid)

theorem ext_unpack {x y : Float} (h : x.toModel.unpack = y.toModel.unpack) : x = y := by
  obtain ⟨x⟩ := x
  obtain ⟨y⟩ := y
  have hpack := congrArg Float.Model.pack h
  rw [pack_unpack, pack_unpack] at hpack
  exact congrArg Float.ofModel hpack

theorem canonical_neg {u : UnpackedFloat} (hu : Canonical u) : Canonical u.neg := by
  cases u <;> exact hu

theorem canonical_abs {u : UnpackedFloat} (hu : Canonical u) : Canonical u.abs := by
  cases u <;> exact hu

@[simp] theorem unpack_neg (x : Float) : (-x).toModel.unpack = x.toModel.unpack.neg :=
  unpack_pack (canonical_neg (canonical_unpack x.toModel))

@[simp] theorem unpack_abs (x : Float) : x.abs.toModel.unpack = x.toModel.unpack.abs :=
  unpack_pack (canonical_abs (canonical_unpack x.toModel))

@[simp] theorem sign_neg_neg (s : Sign) : - -s = s := by
  cases s <;> rfl

theorem neg_neg (x : Float) : - -x = x := by
  refine ext_unpack ?_
  rw [unpack_neg, unpack_neg]
  cases x.toModel.unpack <;> simp only [UnpackedFloat.neg, sign_neg_neg]

end CommandScript.Double
