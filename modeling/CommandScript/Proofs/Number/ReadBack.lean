import CommandScript.Number.Basic
import CommandScript.Proofs.Double.Rounding

/-!
Numbers in scripts. A number is written as a sign and a numeral: digits, perhaps with a point among
them. The main statement is that the numeral of a finite number reads back as its magnitude.
-/

namespace CommandScript
set_option autoImplicit false

open Float.Model (UnpackedFloat)
open Float.Model.UnpackedFloat (Sign)

/-! ## Signs -/

namespace Double

/-- The sign of a number; zero has one too. -/
def sign (x : Float) : Sign :=
  match x.toModel.unpack with
  | .infinity s | .zero s | .finite s _ _ _ => s
  | .notANumber => .positive

theorem abs_of_positive {x : Float} (h : sign x = .positive) : x.abs = x := by
  refine ext_unpack ?_
  rw [unpack_abs]
  unfold sign at h
  generalize x.toModel.unpack = u at h
  cases u with
  | notANumber => rfl
  | infinity s | zero s | finite s m e hm =>
    cases h
    rfl

theorem neg_abs_of_negative {x : Float} (h : sign x = .negative) : -x.abs = x := by
  refine ext_unpack ?_
  rw [unpack_neg, unpack_abs]
  unfold sign at h
  generalize x.toModel.unpack = u at h
  cases u with
  | notANumber => exact nomatch h
  | infinity s | zero s | finite s m e hm =>
    cases h
    rfl

end Double

/-! ## Digits -/

namespace Decimal

variable {ds whole fraction : List Char}

theorem ofDigits_eq_ofDigitChars (ds : List Char) : ofDigits ds = Nat.ofDigitChars 10 ds 0 := by
  rw [ofDigits_eq, Nat.ofDigitChars_eq_foldl]
  rfl

theorem ofDigits_digitsOf (n : Nat) : ofDigits (digitsOf n) = n := by
  rw [ofDigits_eq_ofDigitChars]
  exact Nat.ofDigitChars_ten_toDigits

theorem ofDigits_append_zeros (n k : Nat) :
    ofDigits (digitsOf n ++ List.replicate k '0') = n * 10 ^ k := by
  rw [ofDigits_eq_ofDigitChars, Nat.ofDigitChars_append, Nat.ofDigitChars_replicate_zero,
    ← ofDigits_eq_ofDigitChars, ofDigits_digitsOf, Nat.mul_comm]

theorem ofDigits_zeros_append (n k : Nat) :
    ofDigits (List.replicate k '0' ++ digitsOf n) = n := by
  rw [ofDigits_eq_ofDigitChars, Nat.ofDigitChars_append, Nat.ofDigitChars_replicate_zero,
    Nat.mul_zero, ← ofDigits_eq_ofDigitChars, ofDigits_digitsOf]

theorem isDigit_digitsOf (n : Nat) : ∀ c ∈ digitsOf n, c.isDigit :=
  fun _ => Nat.isDigit_of_mem_toDigits (by decide) (by decide)

theorem digitsOf_ne_nil (n : Nat) : digitsOf n ≠ [] := Nat.toDigits_ne_nil

theorem isDigit_zeros (k : Nat) : ∀ c ∈ List.replicate k '0', c.isDigit := by
  intro c hc
  rw [List.eq_of_mem_replicate hc]
  decide

theorem takeWhile_digits (h : ∀ c ∈ ds, c.isDigit) : ds.takeWhile Char.isDigit = ds :=
  List.takeWhile_eq_self_iff.mpr h

theorem dropWhile_digits (h : ∀ c ∈ ds, c.isDigit) : ds.dropWhile Char.isDigit = [] :=
  List.dropWhile_eq_nil_iff.mpr h

theorem read?_digits (h : ∀ c ∈ ds, c.isDigit) (hne : ds ≠ []) :
    read? ds = some ⟨ofDigits ds, 0⟩ := by
  unfold read?
  rw [takeWhile_digits h, dropWhile_digits h]
  simp [exponent?, hne]

theorem read?_point (hwhole : ∀ c ∈ whole, c.isDigit) (hfraction : ∀ c ∈ fraction, c.isDigit)
    (hne : whole ≠ []) :
    read? (whole ++ '.' :: fraction) = some ⟨ofDigits (whole ++ fraction), -fraction.length⟩ := by
  unfold read?
  rw [List.takeWhile_append_of_pos hwhole, List.dropWhile_append_of_pos hwhole,
    List.takeWhile_cons_of_neg (by decide), List.dropWhile_cons_of_neg (by decide)]
  simp [takeWhile_digits hfraction, dropWhile_digits hfraction, exponent?, hne]

/-! ## Positional texts -/

/-- A decimal is a numeral if it is written with digits and at most one point, a digit first. -/
structure IsNumeral (cs : List Char) : Prop where
  head : ∃ c cs', cs = c :: cs' ∧ c.isDigit
  all : ∀ c ∈ cs, c.isDigit ∨ c = '.'

theorem isNumeral_of_digits (h : ∀ c ∈ ds, c.isDigit) (hne : ds ≠ []) : IsNumeral ds := by
  refine ⟨?_, fun c hc => .inl (h c hc)⟩
  obtain ⟨c, cs, rfl⟩ := List.exists_cons_of_ne_nil hne
  exact ⟨c, cs, rfl, h c List.mem_cons_self⟩

theorem isNumeral_point (hwhole : ∀ c ∈ whole, c.isDigit) (hfraction : ∀ c ∈ fraction, c.isDigit)
    (hne : whole ≠ []) : IsNumeral (whole ++ '.' :: fraction) := by
  refine ⟨?_, ?_⟩
  · obtain ⟨c, cs, hcs, hc⟩ := (isNumeral_of_digits hwhole hne).head
    exact ⟨c, cs ++ '.' :: fraction, by rw [hcs, List.cons_append], hc⟩
  · intro c hc
    rcases List.mem_append.mp hc with hc | hc
    · exact .inl (hwhole c hc)
    · rcases List.mem_cons.mp hc with rfl | hc
      · exact .inr rfl
      · exact .inl (hfraction c hc)

/-- A decimal written with a point reads back, one without a point reads back as a number that has
the power of ten in its digits. -/
theorem positional_readBack (d : Decimal) (hd : d.exponent ≤ 2048) :
    IsNumeral d.positional.toList ∧
      ∃ d', read? d.positional.toList = some d' ∧ d'.toFloat = d.toFloat := by
  obtain ⟨n, e⟩ := d
  change e ≤ 2048 at hd
  have hdigits := isDigit_digitsOf n
  have hne := digitsOf_ne_nil n
  unfold positional
  dsimp only
  split
  · rename_i he
    obtain ⟨k, rfl⟩ := Int.eq_ofNat_of_zero_le he
    have hall : ∀ c ∈ digitsOf n ++ List.replicate k '0', c.isDigit :=
      List.forall_mem_append.mpr ⟨hdigits, isDigit_zeros k⟩
    have hne' : digitsOf n ++ List.replicate k '0' ≠ [] :=
      List.append_ne_nil_of_left_ne_nil hne _
    rw [String.toList_ofList, Int.toNat_natCast]
    refine ⟨isNumeral_of_digits hall hne', _, read?_digits hall hne', ?_⟩
    rw [ofDigits_append_zeros]
    exact toFloat_shift n k (by omega)
  · rename_i he
    obtain ⟨places, rfl⟩ : ∃ places : Nat, e = -places := ⟨(-e).toNat, by omega⟩
    rw [Int.neg_neg, Int.toNat_natCast]
    split
    · rename_i hplaces
      let whole := (digitsOf n).take ((digitsOf n).length - places)
      let fraction := (digitsOf n).drop ((digitsOf n).length - places)
      have hwhole : ∀ c ∈ whole, c.isDigit := fun c hc => hdigits c (List.mem_of_mem_take hc)
      have hfraction : ∀ c ∈ fraction, c.isDigit := fun c hc => hdigits c (List.mem_of_mem_drop hc)
      have hne' : whole ≠ [] := by
        intro hnil
        rcases List.take_eq_nil_iff.mp hnil with h | h
        · omega
        · exact hne h
      have hlength : fraction.length = places := by
        rw [List.length_drop]
        omega
      rw [String.toList_ofList]
      refine ⟨isNumeral_point hwhole hfraction hne', _, read?_point hwhole hfraction hne', ?_⟩
      rw [List.take_append_drop, ofDigits_digitsOf, hlength]
    · rename_i hplaces
      have hfraction : ∀ c ∈ List.replicate (places - (digitsOf n).length) '0' ++ digitsOf n,
          c.isDigit := List.forall_mem_append.mpr ⟨isDigit_zeros _, hdigits⟩
      have hwhole : ∀ c ∈ ['0'], c.isDigit := isDigit_zeros 1
      have hlength : (List.replicate (places - (digitsOf n).length) '0' ++ digitsOf n).length =
          places := by
        rw [List.length_append, List.length_replicate]
        omega
      rw [String.toList_ofList]
      refine ⟨isNumeral_point hwhole hfraction (by decide), _,
        read?_point hwhole hfraction (by decide), ?_⟩
      rw [hlength, ← List.append_assoc]
      change toFloat ⟨ofDigits (List.replicate (_ + 1) '0' ++ digitsOf n), _⟩ = _
      rw [ofDigits_zeros_append]

/-! ## Shortest decimals -/

theorem exponent_exact_le (m : Nat) (e : Int) : (exact m e).exponent ≤ 0 := by
  unfold exact
  split
  · exact Int.le_refl 0
  · rename_i he
    exact Int.le_of_lt (Int.not_le.mp he)

theorem exponent_of_mem_ite {p : Prop} [Decidable p] {k : Nat} {s : Int} {d : Decimal}
    (hd : d ∈ if p then [⟨k, s⟩] else []) : d.exponent = s := by
  split at hd
  · rw [List.mem_singleton.mp hd]
  · exact nomatch hd

theorem exponent_of_mem_neighbours {m : Nat} {e s : Int} {d : Decimal}
    (hd : d ∈ neighbours m e s) : d.exponent = s := by
  unfold neighbours at hd
  dsimp only at hd
  split at hd <;> rcases List.mem_append.mp hd with hd | hd <;> exact exponent_of_mem_ite hd

theorem exponent_search_le {x : Float} {m : Nat} {e limit : Int} (hlimit : 0 ≤ limit) (n : Nat)
    {s : Int} (hs : s ≤ limit) : (search x m e n s).exponent ≤ limit := by
  induction n generalizing s with
  | zero => exact Int.le_trans (exponent_exact_le m e) hlimit
  | succ n ih =>
    unfold search
    split
    · rename_i d hfound
      rw [exponent_of_mem_neighbours (List.mem_of_find?_eq_some hfound)]
      exact hs
    · exact ih (by omega)

/-- The shortest decimal of a finite number reads back as its magnitude, and is not too large for
its power of ten to go into its digits. -/
theorem shortest_readBack {x : Float} {s : Sign} {m : Nat} {e : Int} {hm : 0 < m}
    (hx : x.toModel.unpack = .finite s m e hm) :
    (shortest x).toFloat = x.abs ∧ (shortest x).exponent ≤ 2048 := by
  have hcanonical : Double.Canonical (.finite s m e hm) := hx ▸ Double.canonical_unpack x.toModel
  obtain ⟨hlt, hle, -⟩ := hcanonical
  have hbits := (Nat.log2_lt (Nat.ne_of_gt hm)).mpr hlt
  have hcoarsest : coarsest m e ≤ 2048 := by
    unfold coarsest
    omega
  unfold shortest
  rw [hx]
  exact ⟨search_toFloat 24 _ (Double.toFloat_exact hx), exponent_search_le (by decide) 24 hcoarsest⟩

end Decimal

/-! ## Numbers -/

theorem Decimal.toFloat_zero : toFloat ⟨0, 0⟩ = .ofModel (.pack (.zero .positive)) := by
  have hreaches : reaches ⟨0, 0⟩ 400 = false := by
    unfold reaches
    rw [decide_eq_false_iff_not, Nat.not_le, Nat.zero_mul, Nat.pow_eq]
    exact Nat.pow_pos (by decide)
  unfold toFloat
  rw [hreaches]
  rfl

namespace Number

theorem ofWord?_of_read? {word : String} {d : Decimal} (hnumeral : Decimal.IsNumeral word.toList)
    (hread : Decimal.read? word.toList = some d) : ofWord? word = some d.toFloat := by
  obtain ⟨c, cs, hcs, hc⟩ := hnumeral.head
  unfold ofWord?
  rw [hcs] at hread ⊢
  simp only [hc, Bool.true_or, if_true, hread, Option.map_some]

/-- A finite number is written as its sign and a numeral that reads back as its magnitude. -/
theorem text_readBack {x : Float} (hx : x.isFinite) :
    ∃ word : String, text x = signText (Double.sign x) ++ word ∧
      Decimal.IsNumeral word.toList ∧ ofWord? word = some x.abs := by
  change x.toModel.unpack.isFinite = true at hx
  unfold text Double.sign
  cases hu : x.toModel.unpack with
  | notANumber | infinity s =>
    rw [hu] at hx
    exact nomatch hx
  | zero s =>
    have hdigits : "0".toList = Decimal.digitsOf 0 := by decide +kernel
    have hdigit := Decimal.isDigit_digitsOf 0
    have hne := Decimal.digitsOf_ne_nil 0
    have hnumeral := Decimal.isNumeral_of_digits hdigit hne
    have hread := Decimal.read?_digits hdigit hne
    rw [← hdigits] at hnumeral hread
    refine ⟨"0", rfl, hnumeral, ?_⟩
    rw [ofWord?_of_read? hnumeral hread, hdigits, Decimal.ofDigits_digitsOf, Decimal.toFloat_zero]
    refine congrArg some (Double.ext_unpack ?_)
    rw [Double.unpack_abs, hu]
    exact Double.unpack_pack trivial
  | finite s m e hm =>
    obtain ⟨htoFloat, hexponent⟩ := Decimal.shortest_readBack hu
    obtain ⟨hnumeral, d, hread, hd⟩ := Decimal.positional_readBack _ hexponent
    refine ⟨_, rfl, hnumeral, ?_⟩
    rw [ofWord?_of_read? hnumeral hread, hd, htoFloat]

/-- A number that is not finite is written as a name, behind its sign. -/
theorem text_of_not_finite {x : Float} (hx : x.isFinite = false) :
    ∃ word : String, text x = signText (Double.sign x) ++ word ∧ (word = "NaN" ∨ word = "inf") := by
  change x.toModel.unpack.isFinite = false at hx
  unfold text Double.sign
  cases hu : x.toModel.unpack with
  | notANumber => exact ⟨"NaN", rfl, .inl rfl⟩
  | infinity s => exact ⟨"inf", rfl, .inr rfl⟩
  | zero s | finite s m e hm =>
    rw [hu] at hx
    exact nomatch hx

end Number

end CommandScript
