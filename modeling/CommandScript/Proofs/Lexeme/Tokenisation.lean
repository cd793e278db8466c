import CommandScript.Proofs.Lexeme.ClosingQuotes
import CommandScript.Proofs.Lexeme.Places
import CommandScript.Proofs.Lexeme.Spelling

/-!
What the tokens of a text are, said without the scanner: a text is cut into tokens so that each is of
its kind and could not go on into the text behind it. The main statement is that there is just one
such way to cut a text, and that it is the way of the scanner.
-/

namespace CommandScript
set_option autoImplicit false

open Text (isWhiteSpace)

/-! ## The rules -/

structure QuotedBefore (cs rest : List Char) : Prop where
  quote : cs.head? = some '"'
  lineFeed : '\n' ∉ cs
  ends : QuoteEnds cs.tail rest

/-- White space of one line that does not go on, and no carriage return that belongs to a line
feed. -/
structure BlankBefore (cs rest : List Char) : Prop where
  all : ∀ c ∈ cs, c ≠ '\n' ∧ isWhiteSpace c
  stops : ∀ c ∈ rest.head?, c = '\n' ∨ isWhiteSpace c = false
  lineEnd : ¬(cs = ['\r'] ∧ rest.head? = some '\n')

structure CommentBefore (cs rest : List Char) : Prop where
  mark : cs.head? = some '#'
  all : ∀ c ∈ cs, c ≠ '\n' ∧ c ≠ '\r'
  stops : ∀ c ∈ rest.head?, c = '\n' ∨ c = '\r'

structure WordBefore (cs rest : List Char) : Prop where
  all : ∀ c ∈ cs, isWordChar c
  stops : ∀ c ∈ rest.head?, isWordChar c = false

def keywords : List String := ["function", "true", "false"]

/-- The token is of its kind where the text `rest` stands behind it. -/
def Token.FitsBefore (t : Token) (rest : List Char) : Prop :=
  match t.kind with
  | .newLine => t.content = "\n" ∨ t.content = "\r\n"
  | .whitespace => BlankBefore t.content.toList rest
  | .comment => CommentBefore t.content.toList rest
  | .quotedString => QuotedBefore t.content.toList rest
  | .keyword => WordBefore t.content.toList rest ∧ t.content ∈ keywords
  | .word => WordBefore t.content.toList rest ∧ t.content ∉ keywords
  | kind => ∃ c, t.content.toList = [c] ∧ LexemeKind.ofChar? c = some kind

/-- The text is cut into the tokens, in order. None is empty, and each fits where it stands. -/
inductive Tokenises : List Token → List Char → Prop where
  | nil : Tokenises [] []
  | cons {t : Token} {ts : List Token} {rest : List Char} :
      t.content ≠ "" → t.FitsBefore rest → Tokenises ts rest →
        Tokenises (t :: ts) (t.content.toList ++ rest)

variable {c : Char} {cs body rest : List Char}

theorem isKeyword_iff (text : String) : LexemeKind.isKeyword text ↔ text ∈ keywords := by
  simp [LexemeKind.isKeyword, keywords, or_assoc]

/-! ## Where a token fits -/

def Token.lineFeed : Token := ⟨.newLine, "\n"⟩

def Token.carriageReturn : Token := ⟨.whitespace, "\r"⟩

/-- The carriage return and the line feed behind it in one token. -/
def Token.lineEnd : Token := ⟨.newLine, "\r\n"⟩

section

variable {rest' : List Char}

/-- The second text begins as the first one does, if it does not begin with a line feed. -/
def BeginsLike (rest rest' : List Char) : Prop := ∀ c ∈ rest'.head?, c ∈ rest.head? ∨ c = '\n'

theorem BeginsLike.stops {P : Char → Prop} (h : BeginsLike rest rest') (hfeed : P '\n')
    (hstops : ∀ c ∈ rest.head?, P c) : ∀ c ∈ rest'.head?, P c := by
  intro c hc
  rcases h c hc with hc | rfl
  · exact hstops c hc
  · exact hfeed

theorem QuotedBefore.of_beginsLike (h : QuotedBefore cs rest) (hlike : BeginsLike rest rest') :
    QuotedBefore cs rest' := by
  refine ⟨h.quote, h.lineFeed, ?_⟩
  rcases h.ends with hends | ⟨hnone, hstops⟩
  · exact .inl hends
  · exact .inr ⟨hnone, hlike.stops rfl hstops⟩

theorem BlankBefore.of_beginsLike (h : BlankBefore cs rest) (hlike : BeginsLike rest rest')
    (hreturn : cs = ['\r'] → rest'.head? ≠ some '\n') : BlankBefore cs rest' :=
  ⟨h.all, hlike.stops (.inl rfl) h.stops, fun hcs => hreturn hcs.1 hcs.2⟩

theorem CommentBefore.of_beginsLike (h : CommentBefore cs rest) (hlike : BeginsLike rest rest') :
    CommentBefore cs rest' :=
  ⟨h.mark, h.all, hlike.stops (.inl rfl) h.stops⟩

theorem WordBefore.of_beginsLike (h : WordBefore cs rest) (hlike : BeginsLike rest rest') :
    WordBefore cs rest' :=
  ⟨h.all, hlike.stops (by decide) h.stops⟩

/-- A line feed ends every token but a carriage return, which would belong to it. -/
theorem Token.FitsBefore.of_beginsLike {t : Token} (h : t.FitsBefore rest)
    (hlike : BeginsLike rest rest') (hreturn : t = carriageReturn → rest'.head? ≠ some '\n') :
    t.FitsBefore rest' := by
  obtain ⟨kind, content⟩ := t
  cases kind with
  | quotedString => exact QuotedBefore.of_beginsLike h hlike
  | comment => exact CommentBefore.of_beginsLike h hlike
  | keyword | word => exact ⟨h.1.of_beginsLike hlike, h.2⟩
  | whitespace =>
    refine BlankBefore.of_beginsLike h hlike fun hcs => hreturn ?_
    obtain rfl : content = "\r" := String.toList_inj.mp hcs
    rfl
  | _ => exact h

end

/-! ## One way at most -/

theorem ofWord_eq_keyword {w : String} :
    LexemeKind.ofWord w = .keyword ↔ LexemeKind.isKeyword w = true := by
  unfold LexemeKind.ofWord
  cases LexemeKind.isKeyword w <;> decide

theorem leading_of_wordBefore (h : WordBefore (c :: body) rest) :
    leading c (body ++ rest) = (.ofWord (String.ofList (c :: body)), body.length) := by
  obtain ⟨hall, hstops⟩ := h
  rw [List.forall_mem_cons] at hall
  have hlength := runLength_append hall.2 hstops
  rw [leading_of_isWordChar hall.1, hlength, List.take_left]

theorem leading_of_commentBefore (h : CommentBefore (c :: body) rest) :
    leading c (body ++ rest) = (.comment, body.length) := by
  obtain ⟨hmark, hall, hstops⟩ := h
  obtain rfl : c = '#' := Option.some.inj hmark
  have hinside : ∀ d ∈ body, (decide (d ≠ '\n') && decide (d ≠ '\r')) = true := by
    intro d hd
    simpa using hall d (List.mem_cons_of_mem _ hd)
  have hstop : StopsAt (fun d => decide (d ≠ '\n') && decide (d ≠ '\r')) rest := by
    intro d hd
    rcases hstops d hd with rfl | rfl <;> rfl
  have hlength := runLength_append hinside hstop
  unfold leading
  rw [if_neg (by decide), if_neg (by simp), if_pos rfl, hlength]

theorem leading_of_quotedBefore (h : QuotedBefore (c :: body) rest) :
    leading c (body ++ rest) = (.quotedString, body.length) := by
  obtain ⟨hquote, hfeed, hends⟩ := h
  obtain rfl : c = '"' := Option.some.inj hquote
  have hlength := quotedLength_of_ends (fun h => hfeed (List.mem_cons_of_mem _ h)) hends 0
  unfold leading
  rw [if_neg (by decide), if_neg (by simp), if_neg (by decide), if_pos rfl, hlength, Nat.zero_add]

theorem isSpace_iff : isSpace c ↔ c ≠ '\n' ∧ isWhiteSpace c := by simp [isSpace]

theorem leading_of_blankBefore (h : BlankBefore (c :: body) rest) :
    leading c (body ++ rest) = (.whitespace, body.length) := by
  obtain ⟨hall, hstops, hend⟩ := h
  rw [List.forall_mem_cons] at hall
  obtain ⟨⟨hfeed, hspace⟩, hall⟩ := hall
  have hstop : StopsAt isSpace rest := by
    intro d hd
    rcases hstops d hd with rfl | h <;> simp [isSpace, *]
  have hlength := runLength_append (fun d hd => isSpace_iff.mpr (hall d hd)) hstop
  -- A carriage return that begins a longer run is not followed by a line feed.
  have hreturn : ¬(c = '\r' ∧ (body ++ rest).head? = some '\n') := by
    rintro ⟨rfl, hhead⟩
    cases body with
    | nil => exact hend ⟨rfl, hhead⟩
    | cons d body => exact (hall d List.mem_cons_self).1 (Option.some.inj hhead)
  have hcomment : c ≠ '#' := by
    rintro rfl
    exact absurd hspace (by decide)
  have hquote : c ≠ '"' := by
    rintro rfl
    exact absurd hspace (by decide)
  unfold leading
  rw [if_neg hfeed, if_neg hreturn, if_neg hcomment, if_neg hquote, if_pos hspace, hlength]

/-- A token that fits is the one that the scanner takes. -/
theorem leading_of_fitsBefore {t : Token} (h : t.FitsBefore rest) (ht : t.content.toList = c :: body) :
    leading c (body ++ rest) = (t.kind, body.length) := by
  obtain ⟨kind, content⟩ := t
  have hcontent : content = String.ofList (c :: body) := by rw [← ht, String.ofList_toList]
  dsimp only at ht
  unfold Token.FitsBefore at h
  cases kind
  case newLine =>
    obtain rfl | rfl := h
    · obtain ⟨rfl, rfl⟩ := List.cons.inj ht
      rfl
    · obtain ⟨rfl, rfl⟩ := List.cons.inj ht
      rfl
  case keyword =>
    obtain ⟨hword, hkeyword⟩ := h
    rw [ht] at hword
    rw [leading_of_wordBefore hword, ← hcontent,
      ofWord_eq_keyword.mpr ((isKeyword_iff content).mpr hkeyword)]
  case word =>
    obtain ⟨hword, hkeyword⟩ := h
    rw [ht] at hword
    have hnot := Bool.eq_false_iff.mpr fun h => hkeyword ((isKeyword_iff content).mp h)
    rw [leading_of_wordBefore hword, ← hcontent, ofWord_eq_word.mpr hnot]
  case quotedString =>
    dsimp only at h
    rw [ht] at h
    exact leading_of_quotedBefore h
  case whitespace =>
    dsimp only at h
    rw [ht] at h
    exact leading_of_blankBefore h
  case comment =>
    dsimp only at h
    rw [ht] at h
    exact leading_of_commentBefore h
  all_goals
    obtain ⟨d, hd, hkind⟩ := h
    dsimp only at hd hkind
    rw [ht] at hd
    obtain ⟨rfl, rfl⟩ := List.cons.inj hd
    exact leading_symbol hkind

theorem Tokenises.eq_tokens {ts : List Token} (h : Tokenises ts cs) : ts = tokens cs := by
  induction h with
  | nil => exact tokens_nil.symm
  | @cons t ts rest hne hfits _ ih =>
    cases hlist : t.content.toList with
    | nil => exact absurd (String.toList_eq_nil_iff.mp hlist) hne
    | cons c body =>
      rw [List.cons_append, tokens_append body (leading_of_fitsBefore hfits hlist), ← hlist,
        String.ofList_toList, ← ih]

/-! ## The way of the scanner -/

theorem exists_quotedLength (n : Nat) (cs : List Char) :
    ∃ body rest, cs = body ++ rest ∧ quotedLength n cs = n + body.length ∧ '\n' ∉ body ∧
      QuoteEnds body rest := by
  fun_induction quotedLength n cs with
  | case1 n => exact ⟨[], [], rfl, rfl, by simp, .inr ⟨rfl, nofun⟩⟩
  | case2 n cs =>
    refine ⟨[], '\n' :: cs, rfl, rfl, by simp, .inr ⟨rfl, ?_⟩⟩
    intro d hd
    exact (Option.some.inj hd).symm
  | case3 n cs hfeed => exact ⟨['"'], cs, rfl, rfl, by simp, .inl rfl⟩
  | case4 n hfeed hquote => exact ⟨['\\'], [], rfl, rfl, by simp, .inr ⟨rfl, nofun⟩⟩
  | case5 n rest _ _ =>
    refine ⟨['\\'], '\n' :: rest, rfl, rfl, by simp, .inr ⟨rfl, ?_⟩⟩
    intro d hd
    exact (Option.some.inj hd).symm
  | case6 n d rest hd _ _ ih =>
    obtain ⟨body, rest, rfl, hlength, hbody, hends⟩ := ih
    refine ⟨'\\' :: d :: body, rest, rfl, ?_, ?_, hends⟩
    · rw [hlength]
      simp only [List.length_cons]
      omega
    · simp [Ne.symm hd, hbody]
  | case7 n c cs hfeed hquote hbackslash ih =>
    obtain ⟨body, rest, rfl, hlength, hbody, hends⟩ := ih
    refine ⟨c :: body, rest, rfl, ?_, ?_, ?_⟩
    · rw [hlength, List.length_cons]
      omega
    · simp [Ne.symm hfeed, hbody]
    · unfold QuoteEnds at *
      rw [behindQuote?_plain body hquote hbackslash]
      exact hends

theorem head?_drop_runLength (p : Char → Bool) (cs : List Char) :
    StopsAt p (cs.drop (runLength p cs)) := by
  have hdrop : cs.drop (runLength p cs) = cs.dropWhile p := by
    have hsplit : (cs.takeWhile p ++ cs.dropWhile p).drop (runLength p cs) = cs.dropWhile p :=
      List.drop_left
    rwa [List.takeWhile_append_dropWhile] at hsplit
  rw [hdrop]
  intro c hc
  have hnot := List.head?_dropWhile_not p cs
  rw [hc] at hnot
  exact hnot

theorem forall_mem_take_runLength (p : Char → Bool) (cs : List Char) :
    ∀ c ∈ cs.take (runLength p cs), p c := by
  rw [take_runLength]
  exact List.all_eq_true.mp List.all_takeWhile

theorem commentBefore_run (cs : List Char) :
    let n := runLength (fun d => d ≠ '\n' && d ≠ '\r') cs
    CommentBefore ('#' :: cs.take n) (cs.drop n) := by
  intro n
  refine ⟨rfl, ?_, fun d hd => ?_⟩
  · rw [List.forall_mem_cons]
    refine ⟨by decide, fun d hd => ?_⟩
    simpa using forall_mem_take_runLength _ cs d hd
  · have hstop := head?_drop_runLength _ cs d hd
    by_cases hfeed : d = '\n'
    · exact .inl hfeed
    · exact .inr (by simpa [hfeed] using hstop)

theorem quotedBefore_run (cs : List Char) :
    QuotedBefore ('"' :: cs.take (quotedLength 0 cs)) (cs.drop (quotedLength 0 cs)) := by
  obtain ⟨body, rest, rfl, hlength, hfeed, hends⟩ := exists_quotedLength 0 cs
  rw [hlength, Nat.zero_add, List.take_left, List.drop_left]
  exact ⟨rfl, by simp [hfeed], hends⟩

theorem blankBefore_run (hfeed : c ≠ '\n') (hreturn : ¬(c = '\r' ∧ cs.head? = some '\n'))
    (hspace : isWhiteSpace c) :
    BlankBefore (c :: cs.take (runLength isSpace cs)) (cs.drop (runLength isSpace cs)) := by
  refine ⟨?_, fun d hd => ?_, ?_⟩
  · rw [List.forall_mem_cons]
    exact ⟨⟨hfeed, hspace⟩, fun d hd => isSpace_iff.mp (forall_mem_take_runLength _ cs d hd)⟩
  · have hstop := head?_drop_runLength isSpace cs d hd
    by_cases hfeed : d = '\n'
    · exact .inl hfeed
    · exact .inr (by simpa [isSpace, hfeed] using hstop)
  · -- A run of one character leaves all of `cs` behind it.
    rintro ⟨hcs, hhead⟩
    obtain ⟨rfl, hnil⟩ := List.cons.inj hcs
    have hrest := List.take_append_drop (runLength isSpace cs) cs
    rw [hnil, List.nil_append] at hrest
    rw [hrest] at hhead
    exact hreturn ⟨rfl, hhead⟩

theorem wordBefore_run (hc : isWordChar c) (cs : List Char) :
    WordBefore (c :: cs.take (runLength isWordChar cs)) (cs.drop (runLength isWordChar cs)) := by
  refine ⟨?_, head?_drop_runLength isWordChar cs⟩
  rw [List.forall_mem_cons]
  exact ⟨hc, forall_mem_take_runLength isWordChar cs⟩

theorem fitsBefore_ofWord {w : String} (h : WordBefore w.toList rest) :
    Token.FitsBefore ⟨.ofWord w, w⟩ rest := by
  rcases hkeyword : LexemeKind.isKeyword w
  · rw [ofWord_eq_word.mpr hkeyword]
    exact ⟨h, fun hmem => nomatch hkeyword.symm.trans ((isKeyword_iff w).mpr hmem)⟩
  · rw [ofWord_eq_keyword.mpr hkeyword]
    exact ⟨h, (isKeyword_iff w).mp hkeyword⟩

theorem fitsBefore_symbol {kind : LexemeKind} (h : LexemeKind.ofChar? c = some kind) :
    Token.FitsBefore ⟨kind, String.ofList [c]⟩ rest := by
  unfold LexemeKind.ofChar? at h
  split at h <;> cases h <;> exact ⟨_, rfl, rfl⟩

/-- The token that the scanner takes fits before the rest. -/
theorem fitsBefore_leading (c : Char) (cs : List Char) :
    Token.FitsBefore ⟨(leading c cs).1, String.ofList (c :: cs.take (leading c cs).2)⟩
      (cs.drop (leading c cs).2) := by
  unfold leading
  split
  · rename_i hfeed
    subst hfeed
    exact .inl rfl
  rename_i hfeed
  split
  · rename_i hreturn
    obtain ⟨rfl, hhead⟩ := hreturn
    cases cs with
    | nil => exact nomatch hhead
    | cons d cs =>
      obtain rfl : d = '\n' := Option.some.inj hhead
      exact .inr rfl
  rename_i hreturn
  split
  · rename_i hcomment
    subst hcomment
    have h := commentBefore_run cs
    simpa [Token.FitsBefore] using h
  rename_i hcomment
  split
  · rename_i hquote
    subst hquote
    have h := quotedBefore_run cs
    simpa [Token.FitsBefore] using h
  rename_i hquote
  split
  · rename_i hspace
    have h := blankBefore_run hfeed hreturn hspace
    simpa [Token.FitsBefore] using h
  rename_i hspace
  split
  · rename_i kind hkind
    exact fitsBefore_symbol hkind
  · rename_i hnone
    have hc := isWordChar_iff.mpr ⟨Bool.eq_false_iff.mpr hspace, hcomment, hquote, hnone⟩
    have h := wordBefore_run hc cs
    exact fitsBefore_ofWord (by rwa [String.toList_ofList])

theorem tokenises_tokens (cs : List Char) : Tokenises (tokens cs) cs := by
  induction cs using tokens_induction with
  | nil =>
    rw [tokens_nil]
    exact .nil
  | cons c cs ih =>
    have hne := content_ne_empty_of_mem_tokens (c :: cs)
    rw [tokens_cons] at hne ⊢
    have h := Tokenises.cons (hne _ List.mem_cons_self) (fitsBefore_leading c cs) ih
    rwa [String.toList_ofList, List.cons_append, List.take_append_drop] at h

/-- The lexemes of a source before its end, places aside, are the one way to cut it into tokens that
fit. -/
theorem tokenises_iff_eq_lexemes (source : String) (ts : List Token) :
    Tokenises ts source.toList ↔ ts = (lexemes source).dropLast.map Lexeme.token := by
  obtain ⟨ls, stop, hlexemes, htokens, -⟩ := lexemes_eq source
  rw [hlexemes, List.dropLast_concat, htokens]
  constructor
  · exact Tokenises.eq_tokens
  · rintro rfl
    exact tokenises_tokens source.toList

/-- A carriage return is white space unless a line feed follows it, and inside a longer run it is
white space even then. -/
example : (tokens " \r\n\r\n\r".toList).map Token.content = [" \r", "\n", "\r\n", "\r"] := by
  decide +kernel

end CommandScript
