import CommandScript.Proofs.Number.ReadBack
import CommandScript.Proofs.Parser.Answers
import CommandScript.Proofs.Printing.WellFormed

/-!
The fronts of printed texts. What follows an expression in a printed text decides where the
expression ends, and an expression is recognised by its first token.
-/

namespace CommandScript
set_option autoImplicit false

variable {c : Char} {cs rest : List Char} {kind : LexemeKind}

/-! ## Numerals -/

theorem ofChar?_of_isDigit (h : c.isDigit) : LexemeKind.ofChar? c = none := by
  unfold LexemeKind.ofChar?
  split
  case h_13 => rfl
  all_goals exact nomatch h

theorem isWordChar_of_isDigit (h : c.isDigit) : isWordChar c := by
  rw [isWordChar_iff]
  have hcode : 48 ≤ c.toNat ∧ c.toNat ≤ 57 := by
    unfold Char.isDigit at h
    simpa [UInt32.le_iff_toNat_le] using h
  refine ⟨?_, ?_, ?_, ofChar?_of_isDigit h⟩
  · unfold Text.isWhiteSpace Text.whiteSpaceRanges
    simp
    omega
  · rintro rfl
    exact nomatch h
  · rintro rfl
    exact nomatch h

/-- Keywords begin with one of two letters. -/
theorem isKeyword_eq_false {w : String} (h : w.toList = c :: cs) (hf : c ≠ 'f') (ht : c ≠ 't') :
    LexemeKind.isKeyword w = false := by
  rw [Bool.eq_false_iff]
  intro hkeyword
  unfold LexemeKind.isKeyword at hkeyword
  simp only [Bool.or_eq_true, beq_iff_eq] at hkeyword
  rcases hkeyword with (rfl | rfl) | rfl
  · exact hf (List.cons.inj h).1.symm
  · exact ht (List.cons.inj h).1.symm
  · exact hf (List.cons.inj h).1.symm

theorem isWord_of_isNumeral {w : String} (h : Decimal.IsNumeral w.toList) : IsWord w := by
  obtain ⟨⟨c, cs, hcs, hc⟩, hall⟩ := h
  refine { nonempty := ?_, all := ?_, keyword := ?_ }
  · rintro rfl
    exact nomatch hcs
  · intro d hd
    rcases hall d hd with hd | rfl
    · exact isWordChar_of_isDigit hd
    · decide
  · refine isKeyword_eq_false hcs ?_ ?_
    all_goals
      rintro rfl
      exact nomatch hc

/-- The word in the text of a number. A finite number is read back from it, and otherwise the word
stands for nothing in an expression. -/
structure IsNumberWord (x : Float) (w : String) : Prop where
  text : Number.text x = Number.signText (Double.sign x) ++ w
  isWord : IsWord w
  finite : x.isFinite → Number.ofWord? w = some x.abs
  name : x.isFinite = false → Number.ofWord? w = none ∧ Parser.variableName? w = none

theorem exists_isNumberWord (x : Float) : ∃ w, IsNumberWord x w := by
  cases hx : x.isFinite with
  | true =>
    obtain ⟨w, htext, hnumeral, hread⟩ := Number.text_readBack hx
    exact ⟨w, htext, isWord_of_isNumeral hnumeral, fun _ => hread, fun h => nomatch hx.symm.trans h⟩
  | false =>
    obtain ⟨w, htext, hw⟩ := Number.text_of_not_finite hx
    refine ⟨w, htext, ?_, fun h => absurd (hx.symm.trans h) nofun, fun _ => ?_⟩
    · rcases hw with rfl | rfl <;>
        exact { nonempty := by decide, all := by simp; decide, keyword := by decide }
    · rcases hw with rfl | rfl <;> exact ⟨by cbv, by cbv⟩

theorem isWord_dollar {name : String} (h : IsRun name) : IsWord ("$" ++ name) := by
  have hlist : ("$" ++ name).toList = '$' :: name.toList := String.toList_append ..
  refine { nonempty := ?_, all := ?_, keyword := isKeyword_eq_false hlist (by decide) (by decide) }
  · intro hempty
    rw [hempty] at hlist
    exact nomatch hlist
  · rw [hlist, List.forall_mem_cons]
    exact ⟨by decide, h.all⟩

/-! ## What follows -/

/-- A word ends before the text, and its first token other than a blank is of such a kind. -/
structure Follows (ok : LexemeKind → Bool) (rest : List Char) : Prop where
  boundary : Boundary rest
  next : ∃ mid, Skipped Skip.whitespace.skips rest mid ∧ ok (front mid).kind

section

variable {ok ok' : LexemeKind → Bool}

theorem Follows.weaken (h : Follows ok rest) (hok : ∀ kind, ok kind → ok' kind) :
    Follows ok' rest := by
  obtain ⟨hboundary, mid, hskipped, hmid⟩ := h
  exact ⟨hboundary, mid, hskipped, hok _ hmid⟩

theorem isWordChar_of_ofChar? (h : LexemeKind.ofChar? c = some kind) : isWordChar c = false := by
  unfold isWordChar
  rw [h]
  simp

theorem isLayout_of_ofChar? (h : LexemeKind.ofChar? c = some kind) : kind.isLayout = false := by
  revert h
  unfold LexemeKind.ofChar?
  split
  case h_13 => exact nofun
  all_goals
    intro h
    cases h
    rfl

theorem front_symbol (h : LexemeKind.ofChar? c = some kind) : (front (c :: rest)).kind = kind := by
  rw [front_of_tokens (tokens_symbol h)]

@[simp] theorem front_newLine : front ('\n' :: rest) = ⟨.newLine, "\n"⟩ := front_of_tokens tokens_newLine

@[simp] theorem front_nil : front [] = Token.endOfFile := by
  unfold front
  rw [tokens_nil]
  rfl

/-- Blanks at the front of a text are layout. -/
theorem stopsAt_isSpace (h : (front cs).kind.isLayout = false) : StopsAt isSpace cs := by
  cases cs with
  | nil => exact stopsAt_nil
  | cons c cs =>
    refine stopsAt_cons (Bool.eq_false_iff.mpr fun hspace => ?_)
    unfold isSpace at hspace
    rw [Bool.and_eq_true, decide_eq_true_eq] at hspace
    rw [front_of_tokens (tokens_cons c cs), Bool.eq_false_iff] at h
    refine h ?_
    unfold leading
    rw [if_neg hspace.1]
    split
    · rfl
    · rw [if_neg, if_neg, if_pos hspace.2]
      · rfl
      · rintro rfl
        exact nomatch hspace.2
      · rintro rfl
        exact nomatch hspace.2

/-- Whatever the mode, only layout is skipped. -/
theorem skipped_stay {mode : Skip} (h : (front cs).kind.isLayout = false) :
    Skipped mode.skips cs cs := by
  refine .stay ?_
  revert h
  cases mode <;> cases (front cs).kind <;> decide

theorem skipped_symbol {mode : Skip} (h : LexemeKind.ofChar? c = some kind) :
    Skipped mode.skips (c :: rest) (c :: rest) := by
  refine skipped_stay ?_
  rw [front_symbol h]
  exact isLayout_of_ofChar? h

theorem skipped_blank {mode : Skip} (hmode : mode ≠ .nothing)
    (h : (front rest).kind.isLayout = false) : Skipped mode.skips (' ' :: rest) rest := by
  refine .step (tokens_blanks (n := 0) (stopsAt_isSpace h)) ?_ (skipped_stay h)
  cases mode with
  | nothing => exact absurd rfl hmode
  | whitespace => rfl
  | layout => rfl

theorem follows_symbol (h : LexemeKind.ofChar? c = some kind) (hok : ok kind) :
    Follows ok (c :: rest) := by
  refine ⟨stopsAt_cons (isWordChar_of_ofChar? h), _, skipped_symbol h, ?_⟩
  rw [front_symbol h]
  exact hok

theorem skipped_newLine : Skipped Skip.whitespace.skips ('\n' :: rest) ('\n' :: rest) := by
  refine .stay ?_
  rw [front_newLine]
  rfl

theorem skipped_nil {mode : Skip} : Skipped mode.skips [] [] := by
  refine skipped_stay ?_
  rw [front_nil]
  rfl

theorem follows_newLine (hok : ok .newLine) : Follows ok ('\n' :: rest) := by
  refine ⟨stopsAt_cons (by decide), _, skipped_newLine, ?_⟩
  rw [front_newLine]
  exact hok

theorem follows_nil (hok : ok .endOfFile) : Follows ok [] := by
  refine ⟨stopsAt_nil, _, skipped_nil, ?_⟩
  rw [front_nil]
  exact hok

theorem follows_blank (h : (front rest).kind.isLayout = false) (hok : ok (front rest).kind) :
    Follows ok (' ' :: rest) :=
  ⟨stopsAt_cons (by decide), rest, skipped_blank nofun h, hok⟩

end

end CommandScript
