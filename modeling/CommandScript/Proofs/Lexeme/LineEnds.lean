import CommandScript.Proofs.Lexeme.Tokenisation
import CommandScript.Proofs.Parser.Likeness

/-!
Carriage returns before line feeds. Such a carriage return is the first half of a line end, or it is the last
character of the blanks or of the quoted string without an end that come before the line feed. So a text has
the same tokens without them, but for how blanks, line ends and such strings are written; and as no token
begins behind a carriage return on its line, nothing but the line end moves.
-/

namespace CommandScript
set_option autoImplicit false

open Text (unquote?)

/-! ## Alike tokens -/

/-- The tokens say the same to a parser. -/
structure Token.Same (t u : Token) : Prop where
  kind : u.kind = t.kind
  content : t.kind = .word ∨ t.kind = .keyword → u.content = t.content
  unquoted : t.kind = .quotedString → unquote? u.content = unquote? t.content

/-- A line feed, perhaps with a carriage return before it. -/
def Token.IsLineEnd (t : Token) : Prop := t = lineFeed ∨ t = lineEnd

/-- The next token ends the line, or there is none. -/
def AtLineEnd (ts : List Token) : Prop := ∀ t ∈ ts.head?, t.kind = .newLine

/-- The same tokens, but for what is written before the end of a line and for the line end. Unless that is
to be `strict`, a comment there may be missing in the second list. -/
inductive TokensAlike (strict : Prop) : List Token → List Token → Prop where
  | nil : TokensAlike strict [] []
  | equal {t : Token} {ts us : List Token} : t.kind ≠ .newLine → t.kind ≠ .endOfFile →
      TokensAlike strict ts us → TokensAlike strict (t :: ts) (t :: us)
  | lineEnd {t u : Token} {ts us : List Token} : t.IsLineEnd → u.IsLineEnd →
      TokensAlike strict ts us → TokensAlike strict (t :: ts) (u :: us)
  | last {t u : Token} {ts us : List Token} : t.Same u → t.kind ≠ .newLine → t.kind ≠ .endOfFile →
      '\n' ∉ t.content.toList → '\n' ∉ u.content.toList → AtLineEnd ts →
        TokensAlike strict ts us → TokensAlike strict (t :: ts) (u :: us)
  | comment {t : Token} {ts us : List Token} : ¬strict → t.kind = .comment →
      '\n' ∉ t.content.toList → AtLineEnd ts → TokensAlike strict ts us →
        TokensAlike strict (t :: ts) us

theorem line_foldl_after {cs : List Char} (h : '\n' ∉ cs) (here : Location) :
    (cs.foldl Location.after here).line = here.line := by
  induction cs generalizing here with
  | nil => rfl
  | cons c cs ih =>
    rw [List.mem_cons, not_or] at h
    rw [List.foldl_cons, ih h.2, Location.after_of_ne here (Ne.symm h.1)]

theorem line_stop_placed {t : Token} (h : '\n' ∉ t.content.toList) (here : Location) :
    (t.placed here).stop.line = here.line :=
  line_foldl_after h here

theorem Token.IsLineEnd.kind {t : Token} (h : t.IsLineEnd) : t.kind = .newLine := by
  rcases h with rfl | rfl <;> rfl

theorem Token.IsLineEnd.stop {t : Token} (h : t.IsLineEnd) (here : Location) :
    (t.placed here).stop = ⟨here.line + 1, 1⟩ := by
  rcases h with rfl | rfl <;> rfl

theorem Token.Same.placed {t u : Token} (h : t.Same u) {here here' : Location}
    (hline : here'.line = here.line) (hhere : t.kind.isIdle = false → here' = here) :
    (t.placed here).Same (u.placed here') :=
  ⟨h.kind, hline, hhere, h.content, h.unquoted⟩

theorem Token.Same.refl (t : Token) : t.Same t := ⟨rfl, fun _ => rfl, fun _ => rfl⟩

theorem Token.IsLineEnd.same {t u : Token} (ht : t.IsLineEnd) (hu : u.IsLineEnd) : t.Same u := by
  refine ⟨hu.kind.trans ht.kind.symm, fun h => ?_, fun h => nomatch ht.kind.symm.trans h⟩
  rcases h with h | h <;> exact nomatch ht.kind.symm.trans h

theorem AtLineEnd.place {ts : List Token} (h : AtLineEnd ts) (here : Location) :
    EndsHere (place here ts) := by
  cases ts with
  | nil =>
    intro l hl
    obtain rfl : Lexeme.endOfFile here = l := Option.some.inj hl
    exact .inr rfl
  | cons t ts =>
    intro l hl
    rw [place_cons] at hl
    obtain rfl : t.placed here = l := Option.some.inj hl
    exact .inl (h t rfl)

/-- Alike tokens that begin in the same place, or before the end of the same line, make alike
lexemes. -/
theorem TokensAlike.place {strict : Prop} {ts us : List Token} (h : TokensAlike strict ts us)
    {here here' : Location} (hline : here'.line = here.line) (hhere : here' = here ∨ AtLineEnd ts) :
    Alike strict (place here ts) (place here' us) := by
  induction h generalizing here here' with
  | nil =>
    rw [place_nil, place_nil]
    refine .last rfl ⟨rfl, hline, nofun, fun h => ?_, nofun⟩
    rcases h with h | h <;> exact nomatch h
  | @equal t ts us hline' hend hrest ih =>
    obtain rfl : here' = here := hhere.resolve_right fun hends => hline' (hends t rfl)
    rw [place_cons, place_cons]
    exact .cons hend ((Token.Same.refl t).placed rfl fun _ => rfl) (ih rfl (.inl rfl))
  | @lineEnd t u ts us ht hu hrest ih =>
    rw [place_cons, place_cons]
    have hstop : (u.placed here').stop = (t.placed here).stop := by
      rw [ht.stop, hu.stop, hline]
    refine .cons ?_ ((ht.same hu).placed hline fun hidle => ?_) ?_
    · exact fun hend => nomatch ht.kind.symm.trans hend
    · rw [ht.kind] at hidle
      exact nomatch hidle
    · rw [hstop]
      exact ih rfl (.inl rfl)
  | @last t u ts us hsame hline' hend ht hu hends hrest ih =>
    obtain rfl : here' = here := hhere.resolve_right fun hends => hline' (hends t rfl)
    rw [place_cons, place_cons]
    refine .cons hend (hsame.placed rfl fun _ => rfl) (ih ?_ (.inr hends))
    rw [line_stop_placed ht, line_stop_placed hu]
  | @comment t ts us hstrict hcomment ht hends hrest ih =>
    rw [place_cons]
    refine .comment hstrict hcomment (hends.place _) (ih ?_ (.inr hends))
    rw [line_stop_placed ht, hline]

/-! ## Carriage returns -/

/-- Directly behind each carriage return stands a line feed. -/
def ReturnsPaired (cs : List Char) : Prop :=
  ∀ before behind, cs = before ++ '\r' :: behind → behind.head? = some '\n'

@[simp] theorem returnsPaired_nil : ReturnsPaired [] := by
  intro before behind h
  cases before <;> exact nomatch h

theorem returnsPaired_cons {c : Char} {cs : List Char} :
    ReturnsPaired (c :: cs) ↔ (c = '\r' → cs.head? = some '\n') ∧ ReturnsPaired cs := by
  refine ⟨fun h => ⟨fun hc => h [] cs (by rw [hc]; rfl), fun before behind hcs => ?_⟩, ?_⟩
  · exact h (c :: before) behind (by rw [hcs]; rfl)
  · rintro ⟨hfirst, hrest⟩ before behind h
    cases before with
    | nil =>
      obtain ⟨rfl, rfl⟩ := List.cons.inj h
      exact hfirst rfl
    | cons d before =>
      obtain ⟨-, rfl⟩ := List.cons.inj h
      exact hrest before behind rfl

instance decidableReturnsPaired : (cs : List Char) → Decidable (ReturnsPaired cs)
  | [] => .isTrue returnsPaired_nil
  | _ :: cs =>
    have := decidableReturnsPaired cs
    decidable_of_iff' _ returnsPaired_cons

/-- The text without its carriage returns. -/
def dropReturns (cs : List Char) : List Char := cs.filter (· ≠ '\r')

/-- The text with a carriage return before every line feed. -/
def addReturns (cs : List Char) : List Char :=
  cs.flatMap fun c => if c = '\n' then ['\r', '\n'] else [c]

def Token.withoutReturns (t : Token) : Token :=
  ⟨t.kind, String.ofList (dropReturns t.content.toList)⟩

section

variable {c : Char} {cs ds es rest : List Char}

@[simp] theorem dropReturns_append (cs ds : List Char) :
    dropReturns (cs ++ ds) = dropReturns cs ++ dropReturns ds :=
  List.filter_append ..

theorem dropReturns_of_not_mem (h : '\r' ∉ cs) : dropReturns cs = cs := by
  refine List.filter_eq_self.mpr fun c hc => ?_
  rw [decide_eq_true_eq]
  rintro rfl
  exact h hc

theorem not_mem_dropReturns (cs : List Char) : '\r' ∉ dropReturns cs := by
  unfold dropReturns
  simp

theorem mem_of_mem_dropReturns (h : c ∈ dropReturns cs) : c ∈ cs := List.mem_of_mem_filter h

theorem ReturnsPaired.of_append (h : ReturnsPaired (cs ++ ds)) : ReturnsPaired ds := by
  intro before behind hds
  exact h (cs ++ before) behind (by rw [hds, List.append_assoc])

/-- What stands behind a text may be changed if it still begins with a line feed where it did. -/
theorem ReturnsPaired.append (h : ReturnsPaired (cs ++ ds)) (hes : ReturnsPaired es)
    (hhead : ds.head? = some '\n' → es.head? = some '\n') : ReturnsPaired (cs ++ es) := by
  induction cs with
  | nil => exact hes
  | cons c cs ih =>
    obtain ⟨hfirst, hrest⟩ := returnsPaired_cons.mp h
    refine returnsPaired_cons.mpr ⟨fun hc => ?_, ih hrest⟩
    have hnext := hfirst hc
    cases cs with
    | nil => exact hhead hnext
    | cons d cs => exact hnext

/-- On one line a carriage return can only be the last character. -/
theorem ReturnsPaired.eq_snoc (h : ReturnsPaired (cs ++ rest)) (hfeed : '\n' ∉ cs)
    (hreturn : '\r' ∈ cs) :
    ∃ body, cs = body ++ ['\r'] ∧ '\r' ∉ body ∧ rest.head? = some '\n' := by
  have hlast : ∀ before behind, cs = before ++ '\r' :: behind →
      behind = [] ∧ rest.head? = some '\n' := by
    rintro before behind rfl
    have hnext := h before (behind ++ rest) (by simp)
    cases behind with
    | nil => exact ⟨rfl, hnext⟩
    | cons d behind =>
      obtain rfl : d = '\n' := Option.some.inj hnext
      exact absurd (by simp) hfeed
  obtain ⟨body, behind, hcs⟩ := List.append_of_mem hreturn
  obtain ⟨rfl, hhead⟩ := hlast body behind hcs
  refine ⟨body, hcs, fun hbody => ?_, hhead⟩
  -- Behind an earlier carriage return nothing would be left, not even the last one.
  obtain ⟨before, between, rfl⟩ := List.append_of_mem hbody
  have hnone := (hlast before (between ++ ['\r']) (by rw [hcs]; simp)).1
  exact absurd hnone (by simp)

theorem ReturnsPaired.beginsLike (h : ReturnsPaired rest) : BeginsLike rest (dropReturns rest) := by
  cases rest with
  | nil => exact nofun
  | cons c rest =>
    intro d hd
    by_cases hc : c = '\r'
    · -- The line feed behind the carriage return comes first then.
      have hnext := (returnsPaired_cons.mp h).1 hc
      subst hc
      cases rest with
      | nil => exact nomatch hnext
      | cons e rest =>
        obtain rfl : e = '\n' := Option.some.inj hnext
        exact .inr (Option.some.inj hd).symm
    · have hkeep : dropReturns (c :: rest) = c :: dropReturns rest :=
        List.filter_cons_of_pos (by simpa using hc)
      rw [hkeep] at hd
      exact .inl hd

theorem returnsPaired_addReturns (h : '\r' ∉ cs) : ReturnsPaired (addReturns cs) := by
  induction cs with
  | nil => exact returnsPaired_nil
  | cons c cs ih =>
    rw [List.mem_cons, not_or] at h
    have hrest := ih h.2
    rw [addReturns, List.flatMap_cons]
    by_cases hc : c = '\n'
    · rw [if_pos hc]
      have hfeed : ReturnsPaired ('\n' :: addReturns cs) :=
        returnsPaired_cons.mpr ⟨fun hreturn => absurd hreturn (by decide), hrest⟩
      exact returnsPaired_cons.mpr ⟨fun _ => rfl, hfeed⟩
    · rw [if_neg hc]
      exact returnsPaired_cons.mpr ⟨fun hreturn => absurd hreturn.symm h.1, hrest⟩

theorem dropReturns_addReturns (h : '\r' ∉ cs) : dropReturns (addReturns cs) = cs := by
  induction cs with
  | nil => rfl
  | cons c cs ih =>
    rw [List.mem_cons, not_or] at h
    rw [addReturns, List.flatMap_cons, dropReturns_append, ← addReturns, ih h.2]
    by_cases hc : c = '\n'
    · rw [if_pos hc, hc]
      rfl
    · rw [if_neg hc, dropReturns_of_not_mem (by simpa using h.1)]
      rfl

end

/-! ## Tokens without carriage returns -/

section

variable {c : Char} {cs body rest : List Char} {t : Token} {ts : List Token}

/-- A last character that is no quote is not one behind which the string ends. -/
theorem behindQuote?_snoc (hc : c ≠ '"') (body : List Char) :
    behindQuote? (body ++ [c]) = (behindQuote? body).map (· ++ [c]) := by
  fun_induction behindQuote? body with
  | case1 =>
    by_cases hbackslash : c = '\\'
    · subst hbackslash
      rfl
    · exact behindQuote?_plain [] hc hbackslash
  | case2 rest => rfl
  | case3 d rest ih => exact ih
  | case4 => rfl
  | case5 d rest hquote hescaped hlone ih =>
    rw [List.cons_append, behindQuote?_plain _ hquote (ne_backslash hescaped hlone), ih]

/-- What a carriage return in a token says of the token: it is a line end, or the carriage return stands
before the line feed behind the token, which is blank or a quoted string. -/
theorem cases_of_mem_return (hfits : t.FitsBefore rest)
    (hpaired : ReturnsPaired (t.content.toList ++ rest)) (hreturn : '\r' ∈ t.content.toList) :
    t = .lineEnd ∨ (t.kind = .whitespace ∨ t.kind = .quotedString) ∧ '\n' ∉ t.content.toList := by
  obtain ⟨kind, content⟩ := t
  cases kind with
  | newLine =>
    rcases hfits with rfl | rfl
    · exact absurd hreturn (by decide)
    · exact .inl rfl
  | whitespace => exact .inr ⟨.inl rfl, fun hfeed => (hfits.all _ hfeed).1 rfl⟩
  | quotedString => exact .inr ⟨.inr rfl, hfits.lineFeed⟩
  | comment => exact absurd rfl (hfits.all _ hreturn).2
  | keyword | word => exact absurd (hfits.1.all _ hreturn) (by decide)
  | _ =>
    obtain ⟨c, hc, hkind⟩ := hfits
    rw [hc] at hreturn
    obtain rfl := List.mem_singleton.mp hreturn
    exact nomatch hkind

/-- Blanks do not end with the carriage return of the line end behind them. -/
theorem BlankBefore.withoutReturns (h : BlankBefore (body ++ ['\r']) rest) (hbody : '\r' ∉ body)
    (hhead : rest.head? = some '\n') (hlike : BeginsLike rest (dropReturns rest)) :
    body ≠ [] ∧ BlankBefore body (dropReturns rest) := by
  refine ⟨?_, fun c hc => h.all c (List.mem_append_left _ hc), hlike.stops (.inl rfl) h.stops, ?_⟩
  · rintro rfl
    exact h.lineEnd ⟨rfl, hhead⟩
  · rintro ⟨rfl, -⟩
    exact hbody List.mem_cons_self

/-- A quoted string that ends with a carriage return is not closed, with or without it. -/
theorem QuotedBefore.withoutReturns (h : QuotedBefore (body ++ ['\r']) rest)
    (hhead : rest.head? = some '\n') (hlike : BeginsLike rest (dropReturns rest)) :
    ∃ tail, body = '"' :: tail ∧ QuotedBefore body (dropReturns rest) ∧
      unquote? (String.ofList body) = none ∧ unquote? (String.ofList (body ++ ['\r'])) = none := by
  obtain ⟨hquote, hfeed, hends⟩ := h
  cases body with
  | nil => exact nomatch Option.some.inj hquote
  | cons c tail =>
    obtain rfl : c = '"' := Option.some.inj hquote
    have hsnoc := behindQuote?_snoc (c := '\r') (by decide) tail
    rw [List.cons_append, List.tail_cons, QuoteEnds, hsnoc] at hends
    have hnone : behindQuote? tail = none := by
      cases htail : behindQuote? tail with
      | none => rfl
      | some s =>
        rw [htail] at hends
        rcases hends with hends | hends
        · exact absurd (Option.some.inj hends) (by simp)
        · exact nomatch hends.1
    refine ⟨tail, rfl, ⟨rfl, fun hmem => hfeed (List.mem_append_left _ hmem), .inr ⟨hnone, ?_⟩⟩, ?_, ?_⟩
    · refine hlike.stops rfl fun d hd => ?_
      rw [hhead] at hd
      exact (Option.some.inj hd).symm
    · exact unquote?_eq_none (by rw [hnone]; nofun)
    · rw [List.cons_append]
      exact unquote?_eq_none (by rw [hsnoc, hnone]; nofun)

/-- Where a line feed comes next, the next token is the end of the line. -/
theorem Tokenises.atLineEnd (h : Tokenises ts cs) (hhead : cs.head? = some '\n') : AtLineEnd ts := by
  cases cs with
  | nil => exact nomatch hhead
  | cons c cs =>
    obtain rfl : c = '\n' := Option.some.inj hhead
    rw [h.eq_tokens, tokens_newLine]
    intro t ht
    rw [← Option.some.inj ht]

theorem AtLineEnd.map (h : AtLineEnd ts) : AtLineEnd (ts.map Token.withoutReturns) := by
  cases ts with
  | nil => exact nofun
  | cons t ts =>
    intro u hu
    rw [← Option.some.inj hu]
    exact h t rfl

theorem Token.FitsBefore.isLineEnd (h : t.FitsBefore rest) (hkind : t.kind = .newLine) :
    t.IsLineEnd := by
  obtain ⟨kind, content⟩ := t
  obtain rfl : kind = .newLine := hkind
  rcases h with rfl | rfl
  · exact .inl rfl
  · exact .inr rfl

theorem Token.FitsBefore.ne_endOfFile (h : t.FitsBefore rest) : t.kind ≠ .endOfFile := by
  obtain ⟨kind, content⟩ := t
  rintro rfl
  obtain ⟨c, -, hc⟩ := h
  exact LexemeKind.ofChar?_ne_endOfFile c hc

theorem Token.withoutReturns_of_not_mem (h : '\r' ∉ t.content.toList) : t.withoutReturns = t := by
  unfold withoutReturns
  rw [dropReturns_of_not_mem h, String.ofList_toList]

/-- A fitting token is like itself. -/
theorem TokensAlike.self {strict : Prop} {us : List Token} (hfits : t.FitsBefore rest)
    (h : TokensAlike strict ts us) : TokensAlike strict (t :: ts) (t :: us) := by
  by_cases hkind : t.kind = .newLine
  · exact .lineEnd (hfits.isLineEnd hkind) (hfits.isLineEnd hkind) h
  · exact .equal hkind hfits.ne_endOfFile h

/-- A token with its last character, a carriage return before a line feed, and without it. -/
theorem Token.withoutReturns_last (hfits : t.FitsBefore rest)
    (hkind : t.kind = .whitespace ∨ t.kind = .quotedString) (hcontent : t.content.toList = body ++ ['\r'])
    (hbody : '\r' ∉ body) (hhead : rest.head? = some '\n')
    (hlike : BeginsLike rest (dropReturns rest)) :
    t.withoutReturns.content ≠ "" ∧ t.withoutReturns.FitsBefore (dropReturns rest) ∧
      t.withoutReturns.Same t := by
  obtain ⟨kind, content⟩ := t
  obtain rfl : content = String.ofList (body ++ ['\r']) := by
    rw [← String.ofList_toList (s := content)]
    exact congrArg String.ofList hcontent
  have hdrop : withoutReturns ⟨kind, String.ofList (body ++ ['\r'])⟩ = ⟨kind, String.ofList body⟩ := by
    unfold withoutReturns
    rw [String.toList_ofList, dropReturns_append, dropReturns_of_not_mem hbody]
    exact congrArg (Token.mk kind) (congrArg String.ofList (List.append_nil body))
  have hempty (h : body ≠ []) : String.ofList body ≠ "" := by
    intro hempty
    rw [← String.toList_ofList (l := body), hempty] at h
    exact h rfl
  rw [hdrop]
  rcases hkind with rfl | rfl
  · unfold Token.FitsBefore at hfits
    dsimp only at hfits
    rw [String.toList_ofList] at hfits
    obtain ⟨hbody', hblank⟩ := hfits.withoutReturns hbody hhead hlike
    refine ⟨hempty hbody', ?_, ⟨rfl, nofun, nofun⟩⟩
    change BlankBefore (String.ofList body).toList _
    rwa [String.toList_ofList]
  · unfold Token.FitsBefore at hfits
    dsimp only at hfits
    rw [String.toList_ofList] at hfits
    obtain ⟨tail, hbody', hquoted, hnone, hnone'⟩ := hfits.withoutReturns hhead hlike
    refine ⟨hempty (by rw [hbody']; exact List.cons_ne_nil _ _), ?_, ⟨rfl, nofun, fun _ => ?_⟩⟩
    · change QuotedBefore (String.ofList body).toList _
      rwa [String.toList_ofList]
    · exact hnone'.trans hnone.symm

theorem Token.withoutReturns_step (hne : t.content ≠ "") (hfits : t.FitsBefore rest)
    (hpaired : ReturnsPaired (t.content.toList ++ rest)) (hts : Tokenises ts rest)
    (h : TokensAlike True (ts.map withoutReturns) ts) :
    t.withoutReturns.content ≠ "" ∧ t.withoutReturns.FitsBefore (dropReturns rest) ∧
      TokensAlike True (t.withoutReturns :: ts.map withoutReturns) (t :: ts) := by
  have hlike : BeginsLike rest (dropReturns rest) := hpaired.of_append.beginsLike
  by_cases hreturn : '\r' ∈ t.content.toList
  · rcases cases_of_mem_return hfits hpaired hreturn with rfl | ⟨hkind, hfeed⟩
    · exact ⟨by decide, .inl rfl, .lineEnd (.inl rfl) (.inr rfl) h⟩
    · obtain ⟨body, hcontent, hbody, hhead⟩ := hpaired.eq_snoc hfeed hreturn
      obtain ⟨hne', hfits', hsame⟩ :=
        withoutReturns_last hfits hkind hcontent hbody hhead hlike
      have hline : t.kind ≠ .newLine := by
        rcases hkind with hkind | hkind <;> rw [hkind] <;> decide
      refine ⟨hne', hfits', .last hsame hline hfits'.ne_endOfFile ?_ hfeed (hts.atLineEnd hhead).map h⟩
      unfold withoutReturns
      rw [String.toList_ofList]
      exact fun hmem => hfeed (mem_of_mem_dropReturns hmem)
  · rw [withoutReturns_of_not_mem hreturn]
    refine ⟨hne, hfits.of_beginsLike hlike ?_, h.self hfits⟩
    rintro rfl
    exact absurd List.mem_cons_self hreturn

/-- Without its carriage returns a text has the tokens without theirs. -/
theorem Tokenises.withoutReturns (h : Tokenises ts cs) (hpaired : ReturnsPaired cs) :
    Tokenises (ts.map Token.withoutReturns) (dropReturns cs) ∧
      TokensAlike True (ts.map Token.withoutReturns) ts := by
  induction h with
  | nil => exact ⟨.nil, .nil⟩
  | @cons t ts rest hne hfits hts ih =>
    obtain ⟨htokens, halike⟩ := ih hpaired.of_append
    obtain ⟨hne', hfits', halike'⟩ := Token.withoutReturns_step hne hfits hpaired hts halike
    have hcontent : dropReturns t.content.toList = t.withoutReturns.content.toList :=
      String.toList_ofList.symm
    rw [dropReturns_append, hcontent]
    exact ⟨.cons hne' hfits' htokens, halike'⟩

end

/-! ## Lexemes of sources with carriage returns -/

/-- The source with a carriage return before every line feed. -/
def withReturns (source : String) : String := String.ofList (addReturns source.toList)

/-- The source without its carriage returns. -/
def withoutReturns (source : String) : String := String.ofList (dropReturns source.toList)

theorem tokens_withoutReturns {cs : List Char} (h : ReturnsPaired cs) :
    tokens (dropReturns cs) = (tokens cs).map Token.withoutReturns :=
  ((tokenises_tokens cs).withoutReturns h).1.eq_tokens.symm

/-- Carriage returns before line feeds make no difference to the lexemes. -/
theorem alike_withoutReturns {source : String} (h : ReturnsPaired source.toList) :
    Alike True (lexemes (withoutReturns source)) (lexemes source) := by
  have halike := ((tokenises_tokens source.toList).withoutReturns h).2
  rw [← tokens_withoutReturns h] at halike
  unfold lexemes withoutReturns
  rw [String.toList_ofList]
  exact halike.place rfl (.inl rfl)

section

variable {source : String} (h : '\r' ∉ source.toList)

include h

theorem returnsPaired_withReturns : ReturnsPaired (withReturns source).toList := by
  unfold withReturns
  rw [String.toList_ofList]
  exact returnsPaired_addReturns h

theorem withoutReturns_withReturns : withoutReturns (withReturns source) = source := by
  unfold withoutReturns withReturns
  rw [String.toList_ofList, dropReturns_addReturns h, String.ofList_toList]

end

end CommandScript
