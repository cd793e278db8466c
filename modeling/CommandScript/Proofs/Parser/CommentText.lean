import CommandScript.Proofs.Lexeme.LineEnds
import CommandScript.Proofs.Parser.Padding
import CommandScript.Proofs.Parser.Seam

/-!
The text of comments. A comment ends before the first carriage return or line feed, so of a text that
someone writes behind a hash sign not all need belong to the comment: what stands behind a carriage return
there is read as the rest of the line. The main statement is that the text makes no difference to any
source just if nothing but separators is read from it.
-/

namespace CommandScript
set_option autoImplicit false

/-! ## Tokens behind a hash sign -/

/-- A comment without text. -/
def Token.hash : Token := ⟨.comment, "#"⟩

section

variable {t : Token} {ts us : List Token} {cs rest rest' text behind : List Char}

theorem Token.FitsBefore.of_head?_eq (h : t.FitsBefore rest) (hhead : rest'.head? = rest.head?) :
    t.FitsBefore rest' := by
  refine h.of_beginsLike (fun c hc => .inl (hhead ▸ hc)) ?_
  rintro rfl hfeed
  exact BlankBefore.lineEnd h ⟨rfl, hhead ▸ hfeed⟩

theorem tokenises_hash (hstops : ∀ c ∈ cs.head?, c = '\n' ∨ c = '\r') (h : Tokenises us cs) :
    Tokenises (Token.hash :: us) ('#' :: cs) := by
  refine .cons (by decide) ⟨rfl, fun c hc => ?_, hstops⟩ h
  rw [List.mem_singleton.mp hc]
  decide

/-- The tokens before a hash sign that begins a comment are the same whatever its text is. -/
theorem Tokenises.before_hash (h : Tokenises (ts ++ [Token.hash]) cs) :
    ∃ front, cs = front ++ ['#'] ∧ ∀ us rest, Tokenises us ('#' :: rest) →
      Tokenises (ts ++ us) (front ++ '#' :: rest) := by
  induction ts generalizing cs with
  | nil =>
    cases h with
    | cons hne hfits hts =>
      cases hts
      exact ⟨[], rfl, fun us rest hus => hus⟩
  | cons t ts ih =>
    cases h with
    | cons hne hfits hts =>
      obtain ⟨front, rfl, hfront⟩ := ih hts
      refine ⟨t.content.toList ++ front, (List.append_assoc ..).symm, fun us rest hus => ?_⟩
      have hhead : (front ++ '#' :: rest).head? = (front ++ ['#']).head? := by
        cases front <;> rfl
      rw [List.append_assoc]
      exact .cons hne (hfits.of_head?_eq hhead) (hfront us rest hus)

theorem exists_tokens_append_hash (h : (tokens (cs ++ ['#'])).getLast? = some Token.hash) :
    ∃ ts, ∀ rest, tokens (cs ++ '#' :: rest) = ts ++ tokens ('#' :: rest) := by
  obtain ⟨ts, hts⟩ := List.getLast?_eq_some_iff.mp h
  obtain ⟨front, hfront, htokens⟩ := (hts ▸ tokenises_tokens (cs ++ ['#'])).before_hash
  obtain ⟨rfl, -⟩ := List.append_inj' hfront rfl
  exact ⟨ts, fun rest => ((htokens _ _ (tokenises_tokens _)).eq_tokens).symm⟩

theorem exists_tokens_hash (text : List Char) :
    ∃ t ts, tokens ('#' :: text) = t :: ts ∧ t.kind = .comment := by
  rw [tokens_cons]
  refine ⟨_, _, rfl, ?_⟩
  unfold leading
  rw [if_neg (by decide), if_neg (by simp), if_pos rfl]

theorem lineFeed_not_mem_of_mem_tokens (hcs : '\n' ∉ cs) (ht : t ∈ tokens cs) :
    '\n' ∉ t.content.toList := by
  intro hfeed
  refine hcs ?_
  rw [← tokens_flatMap_content cs]
  exact List.mem_flatMap.mpr ⟨t, ht, hfeed⟩

theorem Tokenises.alike {strict : Prop} (h : Tokenises ts cs) : TokensAlike strict ts ts := by
  induction h with
  | nil => exact .nil
  | cons _ hfits _ ih => exact ih.self hfits

/-- A comment without text ends where its line does. -/
theorem tokens_hash (hends : behind = [] ∨ behind.head? = some '\n') :
    tokens ('#' :: behind) = Token.hash :: tokens behind := by
  refine (tokenises_hash (fun c hc => ?_) (tokenises_tokens behind)).eq_tokens.symm
  rcases hends with rfl | hfeed
  · exact nomatch hc
  · exact .inl (Option.some.inj (hc.symm.trans hfeed))

/-- The tokens of a text from a hash sign on up to the end of the line are those that the text has alone,
and what ends the line is read as it is without the text. -/
theorem exists_tokens_line (text : List Char) (hends : behind = [] ∨ behind.head? = some '\n') :
    ∃ t gap us, t.kind = .comment ∧ (∀ x ∈ t :: gap, x ∈ tokens ('#' :: text)) ∧
      tokens ('#' :: (text ++ behind)) = t :: (gap ++ us) ∧ TokensAlike True us (tokens behind) ∧
        AtLineEnd us := by
  obtain ⟨t, gap, htokens, ht⟩ := exists_tokens_hash text
  rcases hends with rfl | hfeed
  · refine ⟨t, gap, [], ht, fun x hx => htokens ▸ hx, ?_, ?_, nofun⟩
    · rw [List.append_nil, List.append_nil, htokens]
    · rw [tokens_nil]
      exact .nil
  · obtain ⟨below, rfl⟩ : ∃ below, behind = '\n' :: below := List.head?_eq_some_iff.mp hfeed
    obtain ⟨ts, blanks, feed, hfirst, hboth, hblanks⟩ := tokens_seam ('#' :: text) below
    -- The comment is not the carriage return that the line feed may join.
    obtain ⟨gap', rfl⟩ : ∃ gap', ts = t :: gap' := by
      rw [htokens] at hfirst
      cases ts with
      | nil =>
        rcases hblanks with ⟨rfl, -⟩ | ⟨rfl, -⟩
        · exact nomatch hfirst
        · rw [(List.cons.inj hfirst).1] at ht
          exact nomatch ht
      | cons u gap' => exact ⟨gap', by rw [(List.cons.inj hfirst).1]⟩
    have hline : feed.IsLineEnd := hblanks.imp And.right And.right
    refine ⟨t, gap', feed :: tokens below, ht, fun x hx => ?_, hboth, ?_, ?_⟩
    · rw [hfirst]
      exact List.mem_append_left _ hx
    · rw [tokens_newLine]
      exact .lineEnd hline (.inl rfl) (tokenises_tokens below).alike
    · intro u hu
      rw [← Option.some.inj hu]
      exact hline.kind

end

/-! ## Lexemes behind a hash sign -/

/-- Where only separators are read from the text of a comment, placing the tokens pads the source
without the text. -/
theorem padded_place {t : Token} {gap us us' : List Token} (here : Location)
    (ht : t.kind = .comment) (hfeed : ∀ x ∈ t :: gap, '\n' ∉ x.content.toList)
    (hgap : ∀ x ∈ gap, x.kind.isSeparator) (halike : TokensAlike True us us') (hends : AtLineEnd us) :
    Padded (place here (t :: (gap ++ us))) (place here (Token.hash :: us')) := by
  obtain ⟨ht', hgap'⟩ := List.forall_mem_cons.mp hfeed
  obtain ⟨ls, htokens, hplace⟩ := place_append (t.placed here).stop gap
  have hlines : '\n' ∉ gap.flatMap (·.content.toList) := by
    intro hmem
    obtain ⟨x, hx, hcontent⟩ := List.mem_flatMap.mp hmem
    exact hgap' x hx hcontent
  have hsame : t.Same Token.hash := by
    refine ⟨ht.symm, fun h => ?_, fun h => nomatch ht.symm.trans h⟩
    rcases h with h | h <;> exact nomatch ht.symm.trans h
  rw [place_cons, place_cons, hplace]
  refine .comment ht (hsame.placed rfl fun _ => rfl) (fun l hl => ?_) ?_
  · exact hgap l.token (htokens ▸ List.mem_map_of_mem hl)
  · refine .of_alike (halike.place ?_ (.inr hends))
    have hhash : '\n' ∉ Token.hash.content.toList := by decide
    rw [line_foldl_after hlines, line_stop_placed ht', line_stop_placed hhash]

/-- The lexemes of a source with a text behind a hash sign, and of the source without the text. -/
theorem padded_comment {source text behind : String}
    (hsource : (tokens (source ++ "#").toList).getLast? = some Token.hash)
    (htext : '\n' ∉ text.toList) (hbehind : behind = "" ∨ behind.toList.head? = some '\n')
    (hseparators : ∀ t ∈ tokens ("#" ++ text).toList, t.kind.isSeparator) :
    Padded (lexemes (source ++ "#" ++ text ++ behind)) (lexemes (source ++ "#" ++ behind)) := by
  have hhash (s : String) : ("#" ++ s).toList = '#' :: s.toList := String.toList_append
  have htext' : '\n' ∉ '#' :: text.toList := by
    rw [List.mem_cons, not_or]
    exact ⟨by decide, htext⟩
  have hbehind' : behind.toList = [] ∨ behind.toList.head? = some '\n' :=
    hbehind.imp_left fun h => by rw [h]; rfl
  rw [String.toList_append] at hsource
  rw [hhash] at hseparators
  obtain ⟨ts, hts⟩ := exists_tokens_append_hash hsource
  obtain ⟨t, gap, us, ht, hmem, hfirst, halike, hends⟩ := exists_tokens_line text.toList hbehind'
  obtain ⟨ls, htokens, hplace⟩ := place_append Location.start ts
  have hkinds : ∀ l ∈ ls, l.kind ≠ .endOfFile := by
    intro l hl
    refine tokens_ne_endOfFile (source.toList ++ ['#']) l.token ?_
    rw [hts, ← htokens]
    exact List.mem_append_left _ (List.mem_map_of_mem hl)
  unfold lexemes
  rw [String.append_assoc, String.append_assoc, String.append_assoc, String.toList_append, hhash,
    String.toList_append, String.toList_append, hhash, hts, hts, hfirst, tokens_hash hbehind', hplace,
    hplace]
  refine (padded_place _ ht (fun x hx => ?_) (fun x hx => ?_) halike hends).append hkinds
  · exact lineFeed_not_mem_of_mem_tokens htext' (hmem x hx)
  · exact hseparators x (hmem x (List.mem_cons_of_mem t hx))

/-! ## Empty scripts -/

/-- Where only the end of a source is not skipped, all that is before it is skipped. -/
theorem Position.skips_of_pass {skips : LexemeKind → Bool} {p : Position} {ls : List Lexeme}
    {l : Lexeme} (h : p.ahead = ls ++ [l]) (hls : ∀ x ∈ ls, x.kind ≠ .endOfFile)
    (hend : (p.pass skips).lexeme.kind = .endOfFile) : ∀ x ∈ ls, skips x.kind := by
  induction ls generalizing p with
  | nil => exact nofun
  | cons x ls ih =>
    obtain ⟨hx, hls⟩ := List.forall_mem_cons.mp hls
    have hlexeme : p.lexeme = x := (List.cons.inj h).1
    by_cases hskips : skips x.kind
    · have hne : ls ++ [l] ≠ [] := by simp
      rw [pass_of_skips h hne hskips] at hend
      exact List.forall_mem_cons.mpr ⟨hskips, ih (ahead_next h hne) hls hend⟩
    · rw [Bool.not_eq_true] at hskips
      rw [pass_of_not_skips (by rw [hlexeme, hskips]), hlexeme] at hend
      exact absurd hend hx

/-- No statement is read just where the source ends behind the next separators. -/
theorem Parser.script_eq_ok_nil_iff {c : Cursor} (hc : c.Closed) :
    (script c).map Prod.fst = .ok [] ↔
      (c.skipWhile LexemeKind.isSeparator).peek.kind = .endOfFile := by
  unfold script
  rw [many_apply progress_scriptStatement? hc]
  refine ⟨fun h => ?_, fun hend => ?_⟩
  · by_contra hend
    rcases hr : statement? false declaration c with e | ⟨_ | s, c'⟩
    · rw [hr] at h
      exact nomatch h
    · exact absurd hr (statement?_ne_none hend)
    · rw [hr] at h
      dsimp only at h
      cases hm : many (statement? false declaration) c' with
      | error e =>
        rw [hm] at h
        exact nomatch h
      | ok more =>
        rw [hm] at h
        exact nomatch h
  · rw [statement?_of_end false hend]
    rfl

namespace Script

/-- A source is the script without statements just if all of it is separators. -/
theorem parse_eq_ok_nil_iff (source : String) :
    parse source = .ok [] ↔ ∀ t ∈ tokens source.toList, t.kind.isSeparator := by
  obtain ⟨ls, stop, hlexemes, htokens, hkinds⟩ := lexemes_eq source
  have hends : Ends (lexemes source) := ⟨Lexeme.endOfFile stop, by simp [hlexemes], rfl⟩
  have hwhole := Cursor.ahead_ofLexemes_of_ends hends
  have hahead := hwhole.trans hlexemes
  have hclosed : Ends (Cursor.ofLexemes (lexemes source)).ahead := hwhole.symm ▸ hends
  have hall : (∀ t ∈ tokens source.toList, t.kind.isSeparator) ↔ ∀ l ∈ ls, l.kind.isSeparator := by
    rw [← htokens, List.forall_mem_map]
    rfl
  refine (Parser.script_eq_ok_nil_iff hclosed).trans (Iff.trans ⟨fun hend => ?_, fun h => ?_⟩ hall.symm)
  · exact Position.skips_of_pass hahead hkinds hend
  · obtain ⟨p, hp, hpass⟩ := Position.exists_pass_eq hahead h (List.cons_ne_nil _ _)
    have hend : p.lexeme = Lexeme.endOfFile stop := (List.cons.inj hp).1
    change (Position.pass _ _).lexeme.kind = _
    rw [hpass, Position.pass_of_not_skips (by rw [hend]; rfl), hend]
    rfl

/-! ## Comment text -/

/-- Wherever a hash sign begins a comment, up to the end of the line it makes no difference whether the
text stands behind it. -/
def Inert (text : String) : Prop :=
  ∀ source behind : String, (tokens (source ++ "#").toList).getLast? = some ⟨.comment, "#"⟩ →
    behind = "" ∨ behind.toList.head? = some '\n' →
      SameOutcome (parse (source ++ "#" ++ text ++ behind)) (parse (source ++ "#" ++ behind))

theorem parse_hash : parse "#" = .ok [] := (parse_eq_ok_nil_iff "#").mpr (by decide +kernel)

theorem inert_of_separators {text : String} (h : '\n' ∉ text.toList)
    (hseparators : ∀ t ∈ tokens ("#" ++ text).toList, t.kind.isSeparator) : Inert text := by
  intro source behind hsource hbehind
  exact ofLexemes_of_padded (padded_comment hsource h hbehind hseparators)

/-- What is read from an inert text alone is the empty script. -/
theorem separators_of_inert {text : String} (h : Inert text) :
    ∀ t ∈ tokens ("#" ++ text).toList, t.kind.isSeparator := by
  have hsame : SameOutcome (parse ("#" ++ text)) (parse "#") := by
    have hsame := h "" "" (by decide +kernel) (.inl rfl)
    rwa [String.append_empty, String.append_empty, String.empty_append] at hsame
  rw [parse_hash] at hsame
  refine (parse_eq_ok_nil_iff _).mp ?_
  cases hparse : parse ("#" ++ text) with
  | error e =>
    rw [hparse] at hsame
    obtain ⟨e', he', -⟩ := hsame
    exact nomatch he'
  | ok script =>
    rw [hparse] at hsame
    exact hsame.symm

/-- A text without carriage returns is the text of the comment. -/
theorem tokens_comment {text : String} (hfeed : '\n' ∉ text.toList) (hreturn : '\r' ∉ text.toList) :
    tokens ("#" ++ text).toList = [⟨.comment, "#" ++ text⟩] := by
  have hcontent : ("#" ++ text).toList = '#' :: text.toList := String.toList_append
  have hcomment : CommentBefore ("#" ++ text).toList [] := by
    rw [hcontent]
    refine ⟨rfl, fun c hc => ?_, fun c hc => nomatch hc⟩
    rcases List.mem_cons.mp hc with rfl | hc
    · decide
    · exact ⟨fun h => hfeed (h ▸ hc), fun h => hreturn (h ▸ hc)⟩
  have hne : "#" ++ text ≠ "" := by
    intro hempty
    rw [hempty] at hcontent
    exact nomatch hcontent
  have htokens : Tokenises [⟨.comment, "#" ++ text⟩] (("#" ++ text).toList ++ []) :=
    .cons hne hcomment .nil
  rw [List.append_nil] at htokens
  exact htokens.eq_tokens.symm

/-- A text on one line is inert behind a hash sign just if nothing but separators is read from it, and so
it is if there is no carriage return in it. -/
theorem inert_iff {text : String} (h : '\n' ∉ text.toList) :
    (Inert text ↔ ∀ t ∈ tokens ("#" ++ text).toList, t.kind.isSeparator) ∧
      ('\r' ∉ text.toList → Inert text) := by
  refine ⟨⟨separators_of_inert, inert_of_separators h⟩, fun hreturn => ?_⟩
  refine inert_of_separators h fun t ht => ?_
  rw [tokens_comment h hreturn] at ht
  rw [List.mem_singleton.mp ht]
  rfl

/-- Quotes and braces are inert, and behind a carriage return so are blanks, a semicolon and a further
comment; a command is not. -/
theorem inert_iff_return :
    ('\n' ∉ " \"a \x7d".toList ∧ '\r' ∉ " \"a \x7d".toList ∧ Inert " \"a \x7d") ∧
      ('\n' ∉ "a\r ;# b".toList ∧ Inert "a\r ;# b") ∧
        '\n' ∉ "a\rf 1".toList ∧ ¬Inert "a\rf 1" := by
  have hplain : '\n' ∉ " \"a \x7d".toList := by decide
  have hreturn : '\r' ∉ " \"a \x7d".toList := by decide
  have hblanks : '\n' ∉ "a\r ;# b".toList := by decide
  have hcommand : '\n' ∉ "a\rf 1".toList := by decide
  refine ⟨⟨hplain, hreturn, (inert_iff hplain).2 hreturn⟩, ⟨hblanks, ?_⟩, hcommand, ?_⟩
  · exact (inert_iff hblanks).1.mpr (by decide +kernel)
  · exact fun hinert => absurd ((inert_iff hcommand).1.mp hinert) (by decide +kernel)

/-- Behind a carriage return in the text a command is read. -/
theorem parse_hash_return :
    (tokens ("" ++ "#").toList).getLast? = some ⟨.comment, "#"⟩ ∧ '\n' ∉ " a\recho 1".toList ∧
      ¬SameOutcome (parse ("" ++ "#" ++ " a\recho 1" ++ "")) (parse ("" ++ "#" ++ "")) := by
  have hone : (parse ("" ++ "#" ++ " a\recho 1" ++ "")).toOption.map List.length = some 1 := by
    decide +kernel
  refine ⟨by decide +kernel, by decide, fun hsame => ?_⟩
  rw [show parse ("" ++ "#" ++ "") = .ok [] from parse_hash] at hsame
  cases hparse : parse ("" ++ "#" ++ " a\recho 1" ++ "") with
  | error e =>
    rw [hparse] at hone
    exact nomatch hone
  | ok script =>
    rw [hparse] at hone hsame
    obtain rfl : [] = script := Except.ok.inj hsame
    exact nomatch hone

end Script

end CommandScript
