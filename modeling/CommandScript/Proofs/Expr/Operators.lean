import CommandScript.Proofs.Value.Conversions

/-!
What the operators do. A table has a row for each kind of pair of values that an operator is defined
for, and one for all other pairs; repetition is told in it with exact numbers. The main statement is that
an operation has the result of its row, and no repeated text is longer than the limit.
-/

namespace CommandScript
set_option autoImplicit false

open Double (Meaning meaning truncation)
open Float.Model.UnpackedFloat (Sign)

/-! ## Copies -/

theorem copies_succ (s : String) (n : Nat) : copies s (n + 1) = copies s n ++ s := rfl

theorem copies_eq_join (s : String) (n : Nat) : copies s n = String.join (List.replicate n s) := by
  induction n with
  | zero => rfl
  | succ n ih =>
    have hone : String.join [s] = s := String.empty_append
    rw [copies_succ, ih, List.replicate_succ', String.join_append, hone]

theorem utf8ByteSize_copies (s : String) (n : Nat) :
    (copies s n).utf8ByteSize = s.utf8ByteSize * n := by
  induction n with
  | zero => rfl
  | succ n ih => rw [copies_succ, String.utf8ByteSize_append, ih, Nat.mul_succ]

/-! ## Repetition -/

/-- The text so many times, the fraction of the number left aside, unless it would be longer than the
limit. What is no positive number counts as none. -/
def exactRepetition (s : String) (count : Meaning) : Option String :=
  if s = "" then some ""
  else
    match count with
    | .notANumber | .infinite .negative => some ""
    | .infinite .positive => none
    | .rational q =>
      if truncation q ≤ 0 then some ""
      else if s.utf8ByteSize * truncation q ≤ 2 ^ 24 then
        some (String.join (List.replicate (truncation q).toNat s))
      else none

theorem natCast_maxRepeatedBytes : (maxRepeatedBytes : Int) = 2 ^ 24 := rfl

theorem meaning_maxRepeatedBytes :
    meaning (Decimal.toFloat ⟨maxRepeatedBytes, 0⟩) = .rational maxRepeatedBytes :=
  Double.meaning_natural (by decide)

theorem productBelow?_of_lt {bound a b : Nat} (h : a * b < bound) :
    productBelow? bound a b = some (a * b) :=
  if_pos h

theorem productBelow?_of_le {bound a b : Nat} (h : bound ≤ a * b) : productBelow? bound a b = none :=
  if_neg (Nat.not_lt.mpr h)

section

variable {s : String} {x : Float}

theorem repeated_of_none (h : s = "" ∨ meaning (truncated x) = .notANumber ∨ truncated x ≤ 0) :
    repeated s x = .ok "" := by
  rw [← String.utf8ByteSize_eq_zero_iff, ← Double.isNaN_iff] at h
  exact if_pos h

/-- A count beyond the limit is told as such before it becomes a word. -/
theorem repeated_of_beyond (hs : s ≠ "") (hnan : meaning (truncated x) ≠ .notANumber)
    (hpos : ¬truncated x ≤ 0) (hlt : Decimal.toFloat ⟨maxRepeatedBytes, 0⟩ < truncated x) :
    repeated s x = .error (.repeatTooLarge s.utf8ByteSize (truncated x)) := by
  have hsize : s.utf8ByteSize ≠ 0 := hs ∘ String.utf8ByteSize_eq_zero_iff.mp
  have hnan' : ¬(truncated x).isNaN = true := hnan ∘ (Double.isNaN_iff _).mp
  unfold repeated
  dsimp only
  rw [if_neg (not_or.mpr ⟨hsize, not_or.mpr ⟨hnan', hpos⟩⟩), if_pos hlt]

/-- Checked in words, in two steps, the length has the same limit as it has exactly. -/
theorem repeated_of_natural {n : Nat} (hs : s ≠ "") (hn : 0 < n)
    (hcount : meaning (truncated x) = .rational n) :
    repeated s x =
      if s.utf8ByteSize * n ≤ maxRepeatedBytes then .ok (copies s n)
      else .error (.repeatTooLarge s.utf8ByteSize (truncated x)) := by
  have hsize : s.utf8ByteSize ≠ 0 := hs ∘ String.utf8ByteSize_eq_zero_iff.mp
  have hnan : meaning (truncated x) ≠ .notANumber := by
    rw [hcount]
    exact nofun
  have hpos : ¬truncated x ≤ 0 := by
    rw [Double.le_iff_of_rational hcount Double.meaning_zero, not_le]
    exact Nat.cast_pos.mpr hn
  have hlt : Decimal.toFloat ⟨maxRepeatedBytes, 0⟩ < truncated x ↔ maxRepeatedBytes < n := by
    rw [Double.lt_iff_of_rational meaning_maxRepeatedBytes hcount, Nat.cast_lt]
  by_cases hbeyond : maxRepeatedBytes < n
  · have hlong : ¬s.utf8ByteSize * n ≤ maxRepeatedBytes :=
      Nat.not_le.mpr (Nat.lt_of_lt_of_le hbeyond (Nat.le_mul_of_pos_left n (Nat.pos_of_ne_zero hsize)))
    rw [repeated_of_beyond hs hnan hpos (hlt.mpr hbeyond), if_neg hlong]
  · have hword : n < UInt64.size := Nat.lt_of_le_of_lt (Nat.not_lt.mp hbeyond) (by decide)
    have hnan' : ¬(truncated x).isNaN = true := hnan ∘ (Double.isNaN_iff _).mp
    unfold repeated
    dsimp only
    rw [if_neg (not_or.mpr ⟨hsize, not_or.mpr ⟨hnan', hpos⟩⟩), if_neg (hbeyond ∘ hlt.mp),
      Double.toUInt64_of_natural hcount hword]
    by_cases hproduct : s.utf8ByteSize * n < UInt64.size
    · rw [productBelow?_of_lt hproduct]
    · have hlong : ¬s.utf8ByteSize * n ≤ maxRepeatedBytes := fun h =>
        hproduct (Nat.lt_of_le_of_lt h (by decide))
      rw [productBelow?_of_le (Nat.not_lt.mp hproduct), if_neg hlong]

end

/-- Repetition is exact. -/
theorem repeated_eq (s : String) (x : Float) :
    repeated s x =
      match exactRepetition s (meaning x) with
      | some t => .ok t
      | none => .error (.repeatTooLarge s.utf8ByteSize (truncated x)) := by
  have hcount := Double.meaning_truncated x
  unfold exactRepetition
  by_cases hs : s = ""
  · rw [repeated_of_none (.inl hs), if_pos hs]
  rw [if_neg hs]
  cases hx : meaning x with
  | notANumber =>
    rw [hx] at hcount
    rw [repeated_of_none (.inr (.inl hcount))]
  | infinite sign =>
    rw [hx] at hcount
    cases sign with
    | negative =>
      have hle : truncated x ≤ 0 := by
        rw [Double.le_iff, hcount, Double.meaning_zero]
        rfl
      rw [repeated_of_none (.inr (.inr hle))]
    | positive =>
      have hnan : meaning (truncated x) ≠ .notANumber := by
        rw [hcount]
        exact nofun
      have hpos : ¬truncated x ≤ 0 := by
        rw [Double.le_iff, hcount, Double.meaning_zero]
        exact nofun
      have hlt : Decimal.toFloat ⟨maxRepeatedBytes, 0⟩ < truncated x := by
        rw [Double.lt_iff, hcount, meaning_maxRepeatedBytes]
        rfl
      rw [repeated_of_beyond hs hnan hpos hlt]
  | rational q =>
    rw [hx] at hcount
    change meaning (truncated x) = .rational (truncation q) at hcount
    dsimp only
    by_cases hnone : truncation q ≤ 0
    · have hle : truncated x ≤ 0 := by
        rw [Double.le_iff_of_rational hcount Double.meaning_zero]
        exact Int.cast_nonpos.mpr hnone
      rw [repeated_of_none (.inr (.inr hle)), if_pos hnone]
    rw [if_neg hnone]
    obtain ⟨n, hn⟩ := Int.eq_ofNat_of_zero_le (Int.le_of_lt (Int.not_le.mp hnone))
    rw [hn] at hcount hnone ⊢
    rw [Int.cast_natCast] at hcount
    have hlength : (s.utf8ByteSize * (n : Int) ≤ 2 ^ 24) ↔ s.utf8ByteSize * n ≤ maxRepeatedBytes := by
      rw [← natCast_maxRepeatedBytes, ← Int.natCast_mul, Int.ofNat_le]
    rw [repeated_of_natural hs (by omega) hcount, if_congr hlength rfl rfl, Int.toNat_natCast,
      ← copies_eq_join]
    split <;> rfl

theorem utf8ByteSize_of_exactRepetition {s t : String} {count : Meaning}
    (h : exactRepetition s count = some t) : t.utf8ByteSize ≤ 2 ^ 24 := by
  have hempty : "".utf8ByteSize ≤ 2 ^ 24 := Nat.zero_le _
  unfold exactRepetition at h
  split at h
  · exact Option.some.inj h ▸ hempty
  split at h
  · exact Option.some.inj h ▸ hempty
  · exact Option.some.inj h ▸ hempty
  · exact nomatch h
  split at h
  · exact Option.some.inj h ▸ hempty
  split at h
  · rename_i q hnone hlength
    obtain rfl := Option.some.inj h
    rw [← copies_eq_join, utf8ByteSize_copies, ← Int.ofNat_le, Int.natCast_mul,
      Int.toNat_of_nonneg (Int.le_of_lt (Int.not_le.mp hnone))]
    exact hlength
  · exact nomatch h

/-! ## The table -/

theorem Value.exists_text {v : Value} (h : v.type = .text) : ∃ s, v = .text s := by
  cases v with
  | text s => exact ⟨s, rfl⟩
  | number _ | boolean _ | null => exact nomatch h

theorem Value.exists_number {v : Value} (h : v.type = .number) : ∃ x, v = .number x := by
  cases v with
  | number x => exact ⟨x, rfl⟩
  | text _ | boolean _ | null => exact nomatch h

namespace Operator

/-- Whether the two values have texts put together. -/
def Appends (op : Operator) (l r : Value) : Prop := op = add ∧ (l.type = .text ∨ r.type = .text)

/-- Whether a text is repeated. -/
def Repeats (op : Operator) (l r : Value) : Prop :=
  op = multiply ∧ l.type = .text ∧ r.type = .number

/-- The row of the table for an operator and two values, with the result there. -/
inductive Table : Operator → Value → Value → Except Failure Value → Prop
  | appended {l r : Value} {s t : String} (h : l.type = .text ∨ r.type = .text) (hl : l.Shows s)
      (hr : r.Shows t) : Table add l r (.ok (.text (s ++ t)))
  | repeated {s t : String} {x : Float} (h : exactRepetition s (meaning x) = some t) :
      Table multiply (.text s) (.number x) (.ok (.text t))
  | tooLarge {s : String} {x : Float} (h : exactRepetition s (meaning x) = none) :
      Table multiply (.text s) (.number x) (.error (.repeatTooLarge s.utf8ByteSize (truncated x)))
  | sum {x y : Float} : Table add (.number x) (.number y) (.ok (.number (x + y)))
  | difference {x y : Float} : Table subtract (.number x) (.number y) (.ok (.number (x - y)))
  | product {x y : Float} : Table multiply (.number x) (.number y) (.ok (.number (x * y)))
  | quotient {x y : Float} : Table divide (.number x) (.number y) (.ok (.number (x / y)))
  | undefined {op : Operator} {l r : Value} (happends : ¬op.Appends l r) (hrepeats : ¬op.Repeats l r)
      (hnumbers : ¬(l.type = .number ∧ r.type = .number)) :
      Table op l r (.error (.invalidOperator op l.type r.type))

theorem table_apply (op : Operator) (l r : Value) : op.Table l r (op.apply l r) := by
  unfold apply
  split
  · exact .appended (.inl rfl) (Value.shows_toText _) (Value.shows_toText _)
  · rename_i s x
    rw [repeated_eq]
    cases h : exactRepetition s (meaning x) with
    | some t => exact .repeated h
    | none => exact .tooLarge h
  · exact .appended (.inr rfl) (Value.shows_toText _) (Value.shows_toText _)
  · cases op with
    | add => exact .sum
    | subtract => exact .difference
    | multiply => exact .product
    | divide => exact .quotient
  · rename_i hleft hright hnumbers hrepeats
    refine .undefined ?_ ?_ ?_
    · rintro ⟨rfl, hl | hr⟩
      · obtain ⟨s, rfl⟩ := Value.exists_text hl
        exact hleft s rfl rfl
      · obtain ⟨s, rfl⟩ := Value.exists_text hr
        exact hright s rfl rfl
    · rintro ⟨rfl, hl, hr⟩
      obtain ⟨s, rfl⟩ := Value.exists_text hl
      obtain ⟨x, rfl⟩ := Value.exists_number hr
      exact hrepeats s x rfl rfl rfl
    · rintro ⟨hl, hr⟩
      obtain ⟨x, rfl⟩ := Value.exists_number hl
      obtain ⟨y, rfl⟩ := Value.exists_number hr
      exact hnumbers x y rfl rfl

theorem eq_of_table {op : Operator} {l r : Value} {result : Except Failure Value}
    (h : op.Table l r result) : op.apply l r = result := by
  cases h with
  | appended h hl hr =>
    obtain rfl := Value.toText_eq_iff.mpr hl
    obtain rfl := Value.toText_eq_iff.mpr hr
    rcases h with hl | hr
    · obtain ⟨s, rfl⟩ := Value.exists_text hl
      rfl
    · obtain ⟨s, rfl⟩ := Value.exists_text hr
      cases l <;> rfl
  | repeated h =>
    change (CommandScript.repeated _ _).map Value.text = _
    rw [repeated_eq, h]
    rfl
  | tooLarge h =>
    change (CommandScript.repeated _ _).map Value.text = _
    rw [repeated_eq, h]
    rfl
  | sum | difference | product | quotient => rfl
  | undefined happends hrepeats hnumbers =>
    unfold apply
    split
    · exact absurd ⟨rfl, .inl rfl⟩ happends
    · exact absurd ⟨rfl, rfl, rfl⟩ hrepeats
    · exact absurd ⟨rfl, .inr rfl⟩ happends
    · exact absurd ⟨rfl, rfl⟩ hnumbers
    · rfl

/-- An operation has the result of its row in the table, and no text that is repeated becomes longer than
the limit. The number in the failure is the count without its fraction. -/
theorem apply_exact (op : Operator) (l r : Value) :
    (∀ result, op.apply l r = result ↔ op.Table l r result) ∧
    (∀ t, multiply.apply l r = .ok (.text t) → t.utf8ByteSize ≤ 2 ^ 24) ∧
    ∀ x, meaning (truncated x) = (meaning x).truncated := by
  refine ⟨fun result => ⟨?_, eq_of_table⟩, fun t ht => ?_, Double.meaning_truncated⟩
  · rintro rfl
    exact table_apply op l r
  · have hrow := ht ▸ table_apply multiply l r
    cases hrow with
    | repeated h => exact utf8ByteSize_of_exactRepetition h

/-- A fractional count, a difference and a quotient of numbers, a number behind a text, a count beyond the
limit, and a pair that no operator is defined for. -/
theorem apply_exact_fraction :
    multiply.apply (.text "né") (.number (Decimal.toFloat ⟨25, -1⟩)) = .ok (.text "néné") ∧
      "néné".utf8ByteSize ≤ 2 ^ 24 ∧
        multiply.Table (.text "né") (.number (Decimal.toFloat ⟨25, -1⟩)) (.ok (.text "néné")) ∧
        subtract.Table (.number 1) (.number 4) (.ok (.number (-3))) ∧
        divide.Table (.number 1) (.number 4) (.ok (.number 0.25)) ∧
        add.Table (.text "n = ") (.number 0.25) (.ok (.text "n = 0.25")) ∧
        multiply.Table (.text "né") (.number 1e300) (.error (.repeatTooLarge 3 1e300)) ∧
        multiply.Table (.number 2) (.text "né") (.error (.invalidOperator multiply .number .text)) := by
  have h : multiply.apply (.text "né") (.number (Decimal.toFloat ⟨25, -1⟩)) = .ok (.text "néné") := by
    decide +kernel
  have hexact := apply_exact multiply (.text "né") (.number (Decimal.toFloat ⟨25, -1⟩))
  refine ⟨h, hexact.2.1 "néné" h, (hexact.1 _).mp h, ?_, ?_, ?_, ?_, ?_⟩
  · exact ((apply_exact subtract (.number 1) (.number 4)).1 _).mp (by decide +kernel)
  · exact ((apply_exact divide (.number 1) (.number 4)).1 _).mp (by decide +kernel)
  · exact ((apply_exact add (.text "n = ") (.number 0.25)).1 _).mp (by decide +kernel)
  · exact ((apply_exact multiply (.text "né") (.number 1e300)).1 _).mp (by decide +kernel)
  · exact ((apply_exact multiply (.number 2) (.text "né")).1 _).mp (by decide +kernel)

end Operator

end CommandScript
