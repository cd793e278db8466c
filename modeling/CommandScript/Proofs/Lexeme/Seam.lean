import CommandScript.Proofs.Lexeme.Tokenisation
import CommandScript.Proofs.Moved

/-!
Two sources on lines one below the other. No lexeme goes on over the end of a line, so the lexemes of
both sources are those of the first, the line feed between them, and those of the second moved down.
Only a carriage return that ends the first source as a lexeme of its own is not a blank any more: it
belongs to the line feed then.
-/

namespace CommandScript
set_option autoImplicit false

/-! ## Tokens before a line feed -/

section

variable {cs rest : List Char} (ds : List Char)

theorem beginsLike_append_lineFeed : BeginsLike rest (rest ++ '\n' :: ds) := by
  cases rest with
  | nil =>
    intro c hc
    exact .inr (Option.some.inj hc).symm
  | cons d rest => exact fun c hc => .inl hc

theorem Token.FitsBefore.before_lineFeed {t : Token} (h : t.FitsBefore rest)
    (hreturn : rest = [] → t ≠ carriageReturn) : t.FitsBefore (rest ++ '\n' :: ds) := by
  refine h.of_beginsLike (beginsLike_append_lineFeed ds) ?_
  rintro rfl
  cases rest with
  | nil => exact absurd rfl (hreturn rfl)
  | cons d rest => exact fun hfeed => BlankBefore.lineEnd h ⟨rfl, hfeed⟩

theorem tokenises_lineFeed {us : List Token} {ds : List Char} (h : Tokenises us ds) :
    Tokenises (Token.lineFeed :: us) ('\n' :: ds) :=
  .cons (by decide) (.inl rfl) h

theorem tokenises_lineEnd {us : List Token} {ds : List Char} (h : Tokenises us ds) :
    Tokenises (Token.lineEnd :: us) ('\r' :: '\n' :: ds) :=
  .cons (by decide) (.inr rfl) h

/-- The tokens of the first text stay what they are, unless the last one is a carriage return. -/
theorem Tokenises.before_lineFeed {ts us : List Token} {ds : List Char} (h : Tokenises ts cs)
    (h' : Tokenises us ds) :
    Tokenises (ts ++ Token.lineFeed :: us) (cs ++ '\n' :: ds) ∨
      ∃ ts', ts = ts' ++ [Token.carriageReturn] ∧
        Tokenises (ts' ++ Token.lineEnd :: us) (cs ++ '\n' :: ds) := by
  induction h with
  | nil => exact .inl (tokenises_lineFeed h')
  | @cons t ts rest hne hfits hts ih =>
    by_cases hlast : rest = [] ∧ t = Token.carriageReturn
    · obtain ⟨rfl, rfl⟩ := hlast
      obtain rfl : ts = [] := hts.eq_tokens.trans tokens_nil
      exact .inr ⟨[], rfl, tokenises_lineEnd h'⟩
    · have hfits' := hfits.before_lineFeed ds fun hrest ht => hlast ⟨hrest, ht⟩
      rw [List.append_assoc]
      rcases ih with hall | ⟨ts', rfl, hall⟩
      · exact .inl (.cons hne hfits' hall)
      · exact .inr ⟨t :: ts', rfl, .cons hne hfits' hall⟩

/-- The tokens of two texts with a line feed between them. -/
theorem tokens_seam (cs ds : List Char) :
    ∃ ts blanks feed, tokens cs = ts ++ blanks ∧
      tokens (cs ++ '\n' :: ds) = ts ++ feed :: tokens ds ∧
        (blanks = [] ∧ feed = Token.lineFeed ∨
          blanks = [Token.carriageReturn] ∧ feed = Token.lineEnd) := by
  rcases (tokenises_tokens cs).before_lineFeed (tokenises_tokens ds) with h | ⟨ts, hts, h⟩
  · exact ⟨tokens cs, [], _, (List.append_nil _).symm, h.eq_tokens.symm, .inl ⟨rfl, rfl⟩⟩
  · exact ⟨ts, _, _, hts, h.eq_tokens.symm, .inr ⟨rfl, rfl⟩⟩

end

/-! ## Lexemes -/

theorem stop_lineFeed (here : Location) :
    (Token.lineFeed.placed here).stop = ⟨here.line + 1, 1⟩ := rfl

theorem stop_lineEnd (here : Location) :
    (Token.lineEnd.placed here).stop = ⟨here.line + 1, 1⟩ := rfl

/-- The tokens at the front are placed as if nothing stood behind them. -/
theorem place_append (here : Location) (ts : List Token) :
    ∃ ls : List Lexeme, ls.map Lexeme.token = ts ∧ ∀ us, place here (ts ++ us) =
      ls ++ place ((ts.flatMap (·.content.toList)).foldl Location.after here) us := by
  induction ts generalizing here with
  | nil => exact ⟨[], rfl, fun us => rfl⟩
  | cons t ts ih =>
    obtain ⟨ls, htokens, hplace⟩ := ih (t.placed here).stop
    refine ⟨t.placed here :: ls, ?_, fun us => ?_⟩
    · rw [List.map_cons, htokens, Token.token_placed]
    · rw [List.cons_append, place_cons, hplace, List.flatMap_cons, List.foldl_append]
      rfl

/-- How many line feeds there are in a source. -/
def lineFeeds (source : String) : Nat := source.toList.count '\n'

/-- The lexemes of two sources with a line feed between them. -/
theorem lexemes_seam (first second : String) :
    ∃ ls blanks feed stop,
      lexemes first = ls ++ (blanks ++ [Lexeme.endOfFile stop]) ∧
        lexemes (first ++ "\n" ++ second) =
          ls ++ feed :: (lexemes second).map (Lexeme.down (lineFeeds first + 1)) ∧
        (∀ l ∈ ls, l.kind ≠ .endOfFile) ∧ (∀ b ∈ blanks, b.kind = .whitespace) ∧
          feed.kind = .newLine := by
  obtain ⟨ts, blanks, feed, hfirst, hboth, hends⟩ := tokens_seam first.toList second.toList
  obtain ⟨ls, htokens, hplace⟩ := place_append Location.start ts
  have hkinds : ∀ l ∈ ls, l.kind ≠ .endOfFile := by
    intro l hl
    refine tokens_ne_endOfFile first.toList l.token ?_
    rw [hfirst, ← htokens]
    exact List.mem_append_left _ (List.mem_map_of_mem hl)
  have hsource : (first ++ "\n" ++ second).toList = first.toList ++ '\n' :: second.toList := by
    rw [String.toList_append, String.toList_append, List.append_assoc]
    rfl
  have htext := tokens_flatMap_content first.toList
  rw [hfirst, List.flatMap_append] at htext
  rw [Location.foldl_after_start] at hplace
  -- What ends the first source holds no line feed, so the second one begins two lines below the last
  -- line feed before the seam.
  have hlines (hnone : (blanks.flatMap (·.content.toList)).count '\n' = 0) :
      (Location.behind (ts.flatMap (·.content.toList))).line = lineFeeds first + 1 := by
    rw [lineFeeds, ← htext, List.count_append, hnone]
    rfl
  have hsecond (stop : Location) (hstop : stop = ⟨lineFeeds first + 1 + 1, 1⟩) :
      place stop (tokens second.toList) = (lexemes second).map (Lexeme.down (lineFeeds first + 1)) := by
    have hdown : stop = Location.start.down (lineFeeds first + 1) := by
      rw [hstop, Nat.add_comm]
      rfl
    rw [hdown, place_down]
    rfl
  unfold lexemes at *
  rw [hsource, hfirst, hboth, hplace, hplace, place_cons]
  rcases hends with ⟨rfl, rfl⟩ | ⟨rfl, rfl⟩
  · refine ⟨ls, [], _, _, rfl, congrArg (ls ++ _ :: ·) (hsecond _ ?_), hkinds, nofun, rfl⟩
    rw [stop_lineFeed, hlines (by rfl)]
  · refine ⟨ls, [_], _, _, rfl, congrArg (ls ++ _ :: ·) (hsecond _ ?_), hkinds, ?_, rfl⟩
    · rw [stop_lineEnd, hlines (by decide)]
    · intro b hb
      rw [List.mem_singleton.mp hb]
      rfl

end CommandScript
