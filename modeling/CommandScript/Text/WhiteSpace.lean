/-!
White space: the characters that carry the Unicode property `White_Space`, and the trimming of a
text at both ends. The main statement is that trimming leaves the one word that has white space around it
and none at its ends.
-/

namespace CommandScript.Text
set_option autoImplicit false

/-- The ranges of code points with the property `White_Space`, in order, both ends included. -/
def whiteSpaceRanges : List (Nat × Nat) :=
  [(0x0009, 0x000D), (0x0020, 0x0020), (0x0085, 0x0085), (0x00A0, 0x00A0), (0x1680, 0x1680),
   (0x2000, 0x200A), (0x2028, 0x2029), (0x202F, 0x202F), (0x205F, 0x205F), (0x3000, 0x3000)]

/-- Whether `c` has the property `White_Space`. -/
def isWhiteSpace (c : Char) : Bool :=
  whiteSpaceRanges.any fun range => range.1 ≤ c.toNat && c.toNat ≤ range.2

/-- The characters without the white space at both ends. -/
def trim (cs : List Char) : List Char :=
  ((cs.dropWhile isWhiteSpace).reverse.dropWhile isWhiteSpace).reverse

/-! ## What trimming leaves -/

/-- The characters are the word with white space around it, and the word itself has none at its ends. -/
def Surrounds (cs word : List Char) : Prop :=
  ∃ before after : List Char, cs = before ++ word ++ after ∧
    (∀ c ∈ before, isWhiteSpace c) ∧ (∀ c ∈ after, isWhiteSpace c) ∧
    (∀ c ∈ word.head?, ¬isWhiteSpace c) ∧ ∀ c ∈ word.getLast?, ¬isWhiteSpace c

theorem dropWhile_eq_iff (p : Char → Bool) (cs rest : List Char) :
    cs.dropWhile p = rest ↔
      ∃ before, cs = before ++ rest ∧ (∀ c ∈ before, p c) ∧ ∀ c ∈ rest.head?, ¬p c := by
  constructor
  · rintro rfl
    refine ⟨cs.takeWhile p, List.takeWhile_append_dropWhile.symm,
      List.all_eq_true.mp List.all_takeWhile, fun c hc => ?_⟩
    have hnot := List.head?_dropWhile_not p cs
    rw [Option.mem_def.mp hc] at hnot
    exact Bool.eq_false_iff.mp hnot
  · rintro ⟨before, rfl, hbefore, hrest⟩
    rw [List.dropWhile_append_of_pos hbefore]
    cases rest with
    | nil => rfl
    | cons c rest => exact List.dropWhile_cons_of_neg (hrest c rfl)

/-- Trimming leaves the word that the white space stands around, and there is only one. -/
theorem trim_eq_iff (cs word : List Char) : trim cs = word ↔ Surrounds cs word := by
  rw [trim, List.reverse_eq_iff, dropWhile_eq_iff]
  constructor
  · rintro ⟨after, hafter, hblank, hlast⟩
    have hleft : cs.dropWhile isWhiteSpace = word ++ after.reverse := by
      rw [List.reverse_eq_iff, List.reverse_append, List.reverse_reverse] at hafter
      exact hafter
    obtain ⟨before, rfl, hbefore, hhead⟩ := (dropWhile_eq_iff _ _ _).mp hleft
    refine ⟨before, after.reverse, (List.append_assoc ..).symm, hbefore,
      fun c hc => hblank c (List.mem_reverse.mp hc), fun c hc => hhead c ?_, fun c hc => hlast c ?_⟩
    · rw [List.head?_append, Option.mem_def.mp hc]
      rfl
    · rw [List.head?_reverse]
      exact hc
  · rintro ⟨before, after, rfl, hbefore, hafter, hhead, hlast⟩
    rw [List.append_assoc, List.dropWhile_append_of_pos hbefore]
    cases word with
    | nil =>
      have hnone : after.dropWhile isWhiteSpace = [] :=
        (dropWhile_eq_iff _ after []).mpr ⟨after, (List.append_nil after).symm, hafter, nofun⟩
      exact ⟨[], by rw [List.nil_append, hnone]; rfl, nofun, nofun⟩
    | cons c word =>
      rw [List.cons_append, List.dropWhile_cons_of_neg (hhead c rfl), ← List.cons_append,
        List.reverse_append]
      refine ⟨after.reverse, rfl, fun c hc => hafter c (List.mem_reverse.mp hc), fun c hc => ?_⟩
      rw [List.head?_reverse] at hc
      exact hlast c hc

end CommandScript.Text
