import CommandScript.Lexeme.Scan
import CommandScript.Text.Quoted

/-!
How texts are cut. A word, a symbol, a blank, a line feed or a quoted string at the front of a text
is the first token, if what follows cannot belong to it. Conversely, a word that is a token of some
text is a run of word characters and no keyword.
-/

namespace CommandScript
set_option autoImplicit false

open Text (isWhiteSpace)

/-! ## Runs -/

/-- No character that `p` accepts stands at the front. -/
def StopsAt (p : Char → Bool) (cs : List Char) : Prop := ∀ c ∈ cs.head?, p c = false

/-- The text does not go on with a word character. -/
abbrev Boundary (cs : List Char) : Prop := StopsAt isWordChar cs

variable {p : Char → Bool} {c : Char} {cs rest : List Char}

@[simp] theorem stopsAt_nil : StopsAt p [] := nofun

theorem stopsAt_cons (h : p c = false) : StopsAt p (c :: cs) := by
  intro d hd
  obtain rfl : c = d := Option.some.inj hd
  exact h

theorem runLength_append (hall : ∀ c ∈ cs, p c) (hstop : StopsAt p rest) :
    runLength p (cs ++ rest) = cs.length := by
  unfold runLength
  rw [List.takeWhile_append_of_pos hall, List.length_append]
  cases rest with
  | nil => rfl
  | cons d rest =>
    rw [List.takeWhile_cons_of_neg]
    · rfl
    · rw [hstop d rfl]
      exact Bool.false_ne_true

theorem take_runLength (p : Char → Bool) (cs : List Char) :
    cs.take (runLength p cs) = cs.takeWhile p := by
  have hprefix : cs.takeWhile p <+: cs := List.takeWhile_prefix p
  exact (List.prefix_iff_eq_take.mp hprefix).symm

/-! ## Words -/

/-- A run of word characters. -/
structure IsRun (w : String) : Prop where
  nonempty : w ≠ ""
  all : ∀ c ∈ w.toList, isWordChar c

/-- What a lexeme of the kind of words can be. -/
structure IsWord (w : String) : Prop extends IsRun w where
  keyword : LexemeKind.isKeyword w = false

theorem ofWord_eq_word {w : String} : LexemeKind.ofWord w = .word ↔ LexemeKind.isKeyword w = false := by
  unfold LexemeKind.ofWord
  cases LexemeKind.isKeyword w <;> decide

/-! ## Tokens at the front -/

/-- If the first token ends behind `cs`, the others are those of the rest. -/
theorem tokens_append (cs : List Char) {kind : LexemeKind}
    (h : leading c (cs ++ rest) = (kind, cs.length)) :
    tokens (c :: (cs ++ rest)) = ⟨kind, String.ofList (c :: cs)⟩ :: tokens rest := by
  rw [tokens_cons, h, List.take_left, List.drop_left]

/-- What a word character is not. -/
structure NoLead (c : Char) : Prop where
  whiteSpace : isWhiteSpace c = false
  comment : c ≠ '#'
  quote : c ≠ '"'
  symbol : LexemeKind.ofChar? c = none

theorem isWordChar_iff : isWordChar c ↔ NoLead c := by
  unfold isWordChar
  simp only [Bool.and_eq_true, Bool.not_eq_true', decide_eq_true_eq, Option.isNone_iff_eq_none]
  constructor
  · rintro ⟨⟨⟨h1, h2⟩, h3⟩, h4⟩
    exact ⟨h1, h2, h3, h4⟩
  · rintro ⟨h1, h2, h3, h4⟩
    exact ⟨⟨⟨h1, h2⟩, h3⟩, h4⟩

theorem leading_of_isWordChar (h : isWordChar c) :
    leading c cs =
      (.ofWord (String.ofList (c :: cs.take (runLength isWordChar cs))), runLength isWordChar cs) := by
  obtain ⟨hspace, hcomment, hquote, hsymbol⟩ := isWordChar_iff.mp h
  have hfeed : c ≠ '\n' := by
    rintro rfl
    exact nomatch hspace
  have hreturn : ¬ (c = '\r' ∧ cs.head? = some '\n') := by
    rintro ⟨rfl, -⟩
    exact nomatch hspace
  unfold leading
  rw [if_neg hfeed, if_neg hreturn, if_neg hcomment, if_neg hquote, if_neg (by rw [hspace]; decide),
    hsymbol]

theorem tokens_run {w : String} (hw : IsRun w) (hrest : Boundary rest) :
    tokens (w.toList ++ rest) = ⟨.ofWord w, w⟩ :: tokens rest := by
  obtain ⟨hne, hall⟩ := hw
  cases hlist : w.toList with
  | nil => exact absurd (String.toList_eq_nil_iff.mp hlist) hne
  | cons c cs =>
    have hcs : w = String.ofList (c :: cs) := by rw [← hlist, String.ofList_toList]
    rw [hlist, List.forall_mem_cons] at hall
    have hlength := runLength_append hall.2 hrest
    rw [List.cons_append, tokens_append cs, hcs]
    rw [leading_of_isWordChar hall.1, hlength, List.take_left]

theorem tokens_word {w : String} (hw : IsWord w) (hrest : Boundary rest) :
    tokens (w.toList ++ rest) = ⟨.word, w⟩ :: tokens rest := by
  rw [tokens_run hw.toIsRun hrest, ofWord_eq_word.mpr hw.keyword]

theorem leading_symbol {kind : LexemeKind} (h : LexemeKind.ofChar? c = some kind) :
    leading c rest = (kind, 0) := by
  revert h
  unfold LexemeKind.ofChar?
  split <;> intro h <;> cases h <;> rfl

theorem tokens_symbol {kind : LexemeKind} (h : LexemeKind.ofChar? c = some kind) :
    tokens (c :: rest) = ⟨kind, String.ofList [c]⟩ :: tokens rest :=
  tokens_append [] (leading_symbol h)

@[simp] theorem tokens_newLine : tokens ('\n' :: rest) = ⟨.newLine, "\n"⟩ :: tokens rest :=
  tokens_append [] rfl

theorem tokens_blanks {n : Nat} (hrest : StopsAt isSpace rest) :
    tokens (List.replicate (n + 1) ' ' ++ rest) =
      ⟨.whitespace, String.ofList (List.replicate (n + 1) ' ')⟩ :: tokens rest := by
  rw [List.replicate_succ, List.cons_append]
  refine tokens_append _ ?_
  have hall : ∀ c ∈ List.replicate n ' ', isSpace c := by
    intro c hc
    rw [List.eq_of_mem_replicate hc]
    decide
  have hlength := runLength_append hall hrest
  unfold leading
  rw [if_neg (by decide), if_neg (by simp), if_neg (by decide), if_neg (by decide),
    if_pos (by decide), hlength]

/-! ## Quoted strings -/

theorem quotedLength_escape (n : Nat) (c : Char) :
    quotedLength n (Text.escape c ++ rest) = quotedLength (n + (Text.escape c).length) rest := by
  unfold Text.escape
  by_cases h1 : c = '"'
  · subst h1
    simp [quotedLength]
  by_cases h2 : c = '\\'
  · subst h2
    simp [quotedLength]
  by_cases h3 : c = '\n'
  · subst h3
    simp [quotedLength]
  by_cases h4 : c = '\t'
  · subst h4
    simp [quotedLength]
  rw [if_neg h1, if_neg h2, if_neg h3, if_neg h4, List.singleton_append]
  conv => lhs; unfold quotedLength
  rw [if_neg h3, if_neg h1, if_neg h2]
  rfl

theorem quotedLength_flatMap_escape (n : Nat) (s : List Char) :
    quotedLength n (s.flatMap Text.escape ++ '"' :: rest) =
      n + (s.flatMap Text.escape).length + 1 := by
  induction s generalizing n with
  | nil =>
    unfold List.flatMap quotedLength
    rfl
  | cons c s ih =>
    rw [List.flatMap_cons, List.append_assoc, quotedLength_escape, ih, List.length_append]
    omega

@[simp] theorem tokens_quote (s : String) :
    tokens ((Text.quote s).toList ++ rest) = ⟨.quotedString, Text.quote s⟩ :: tokens rest := by
  unfold Text.quote
  rw [String.toList_ofList, List.cons_append]
  refine tokens_append _ ?_
  unfold leading
  rw [if_neg (by decide), if_neg (by simp), if_neg (by decide), if_pos rfl, List.append_assoc,
    List.singleton_append, quotedLength_flatMap_escape]
  simp

/-! ## Words of a text -/

theorem isRun_cons (hc : isWordChar c) (hall : ∀ d ∈ cs, isWordChar d) :
    IsRun (String.ofList (c :: cs)) := by
  refine ⟨?_, ?_⟩
  · intro hempty
    have hlist := congrArg String.toList hempty
    rw [String.toList_ofList] at hlist
    exact nomatch hlist
  · rw [String.toList_ofList, List.forall_mem_cons]
    exact ⟨hc, hall⟩

theorem LexemeKind.ofChar?_ne_word (c : Char) : LexemeKind.ofChar? c ≠ some .word := by
  unfold LexemeKind.ofChar?
  split <;> simp

theorem isWordChar_of_leading (h : (leading c cs).1 = .word) : isWordChar c := by
  rw [isWordChar_iff]
  unfold leading at h
  repeat' split at h
  · exact nomatch h
  · exact nomatch h
  · exact nomatch h
  · exact nomatch h
  · exact nomatch h
  · rename_i kind hkind
    cases h
    exact absurd hkind (LexemeKind.ofChar?_ne_word c)
  · rename_i hcomment hquote hspace _ hsymbol
    exact ⟨Bool.eq_false_iff.mpr hspace, hcomment, hquote, hsymbol⟩

theorem tokens_isWord (cs : List Char) :
    ∀ t ∈ tokens cs, t.kind = .word → IsWord t.content := by
  induction cs using tokens_induction with
  | nil =>
    rw [tokens_nil]
    exact nofun
  | cons c cs ih =>
    rw [tokens_cons, List.forall_mem_cons]
    refine ⟨fun hkind => ?_, ih⟩
    have hc := isWordChar_of_leading hkind
    rw [leading_of_isWordChar hc] at hkind ⊢
    refine { toIsRun := isRun_cons hc ?_, keyword := ofWord_eq_word.mp hkind }
    rw [take_runLength]
    exact List.all_eq_true.mp List.all_takeWhile

end CommandScript
