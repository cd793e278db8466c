import CommandScript.Lexeme.Scan

/-!
Lexemes without their places. Placing tokens changes neither their kinds nor their contents and adds
the end of the source behind them, which is the only lexeme of its kind.
-/

namespace CommandScript
set_option autoImplicit false

/-- The lexeme without its place. -/
def Lexeme.token (l : Lexeme) : Token := ⟨l.kind, l.content⟩

@[simp] theorem Token.token_placed (t : Token) (here : Location) : (t.placed here).token = t := rfl

/-! ## Kinds -/

theorem LexemeKind.ofChar?_ne_endOfFile (c : Char) : LexemeKind.ofChar? c ≠ some .endOfFile := by
  unfold LexemeKind.ofChar?
  split <;> simp

theorem LexemeKind.ofWord_eq (text : String) :
    LexemeKind.ofWord text = .keyword ∨ LexemeKind.ofWord text = .word := by
  unfold LexemeKind.ofWord
  split
  · exact .inl rfl
  · exact .inr rfl

theorem leading_ne_endOfFile (c : Char) (cs : List Char) : (leading c cs).1 ≠ .endOfFile := by
  unfold leading
  repeat' split
  · nofun
  · nofun
  · nofun
  · nofun
  · nofun
  · rename_i kind hkind
    intro h
    exact LexemeKind.ofChar?_ne_endOfFile c (h ▸ hkind)
  · rcases LexemeKind.ofWord_eq (String.ofList (c :: cs.take (runLength isWordChar cs))) with h | h
    all_goals
      intro hend
      exact nomatch h.symm.trans hend

theorem tokens_ne_endOfFile (cs : List Char) : ∀ t ∈ tokens cs, t.kind ≠ .endOfFile := by
  induction cs using tokens_induction with
  | nil =>
    rw [tokens_nil]
    intro t ht
    exact nomatch ht
  | cons c cs ih =>
    rw [tokens_cons, List.forall_mem_cons]
    exact ⟨leading_ne_endOfFile c cs, ih⟩

/-! ## Places -/

/-- The end of a source is the last lexeme and the only one of its kind. -/
theorem place_eq (here : Location) (ts : List Token) :
    ∃ ls stop, place here ts = ls ++ [Lexeme.endOfFile stop] ∧ ls.map Lexeme.token = ts := by
  induction ts generalizing here with
  | nil => exact ⟨[], here, rfl, rfl⟩
  | cons t ts ih =>
    obtain ⟨ls, stop, hplace, htokens⟩ := ih (t.placed here).stop
    refine ⟨t.placed here :: ls, stop, ?_, ?_⟩
    · rw [place_cons, hplace, List.cons_append]
    · rw [List.map_cons, htokens, Token.token_placed]

theorem lexemes_eq (source : String) :
    ∃ ls stop, lexemes source = ls ++ [Lexeme.endOfFile stop] ∧
      ls.map Lexeme.token = tokens source.toList ∧ ∀ l ∈ ls, l.kind ≠ .endOfFile := by
  obtain ⟨ls, stop, hlexemes, htokens⟩ := place_eq Location.start (tokens source.toList)
  refine ⟨ls, stop, hlexemes, htokens, fun l hl => ?_⟩
  refine tokens_ne_endOfFile source.toList l.token ?_
  rw [← htokens]
  exact List.mem_map_of_mem hl

/-- Of two ways to split the lexemes of a source before its end there is only one. -/
theorem eq_of_append_endOfFile {ls ts rest : List Lexeme} {x y : Lexeme}
    (hkinds : ∀ l ∈ ls, l.kind ≠ .endOfFile) (hx : x.kind = .endOfFile)
    (h : ls ++ [y] = ts ++ x :: rest) : ls = ts ∧ rest = [] := by
  rcases List.eq_nil_or_concat rest with rfl | ⟨rest, z, rfl⟩
  · exact ⟨(List.append_inj' h rfl).1, rfl⟩
  · rw [List.concat_eq_append, ← List.cons_append, ← List.append_assoc] at h
    have hls := (List.append_inj' h rfl).1
    refine absurd hx (hkinds x ?_)
    rw [hls]
    exact List.mem_append_right _ List.mem_cons_self

end CommandScript
