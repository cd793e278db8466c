import CommandScript.Proofs.Lexeme.Tokenisation
import CommandScript.Proofs.Parser.Productions
import CommandScript.Proofs.Parser.Statements

/-!
Where statements and faults are. A statement is placed where its first lexeme begins, and a fault at a
lexeme of the source, whichever it was that the parser looked at; so both places are places in the text.
The main statement is that the places of the statements of a script grow in the order of the text and
that each statement begins there, and that a fault tells what is found at its place.
-/

namespace CommandScript
set_option autoImplicit false

open CommandScript.Parser (Repeated)

/-! ## Texts in a source -/

/-- The text stands in the source at the place. -/
def StandsAt (source : String) (place : Location) (text : String) : Prop :=
  ∃ passed rest, source.toList = passed ++ (text.toList ++ rest) ∧ place = Location.behind passed

/-- What is found in the source at the place, as an error tells it: the end, the end of a line, or a
text that stands there. -/
inductive Found (source : String) (place : Location) : String → Prop where
  | endOfFile : place = Location.behind source.toList → Found source place "end of file"
  | newLine {text : String} : text = "\n" ∨ text = "\r\n" → StandsAt source place text →
      Found source place "newline"
  | text {text : String} : text ≠ "" → StandsAt source place text →
      Found source place ("`" ++ text ++ "`")

theorem start_of_lexemes_eq {source : String} {before behind : List Lexeme} {l : Lexeme}
    (h : lexemes source = before ++ l :: behind) : l.start = Location.behind (textOf before) := by
  rw [← Location.foldl_after_start]
  exact (place_append_cons h).1

/-- A lexeme of the source stands where it says. -/
theorem standsAt_of_mem_lexemes {source : String} {l : Lexeme} (h : l ∈ lexemes source) :
    StandsAt source l.start l.content := by
  obtain ⟨before, behind, hsplit⟩ := List.append_of_mem h
  refine ⟨textOf before, textOf behind, ?_, start_of_lexemes_eq hsplit⟩
  rw [← textOf_lexemes source, hsplit, textOf_append]
  rfl

theorem StandsAt.head {source : String} {place : Location} {text : String} {c : Char}
    (h : StandsAt source place text) (hc : text.toList.head? = some c) :
    StandsAt source place (String.singleton c) := by
  obtain ⟨passed, rest, hsource, hplace⟩ := h
  obtain ⟨cs, htext⟩ := List.head?_eq_some_iff.mp hc
  refine ⟨passed, cs ++ rest, ?_, hplace⟩
  rw [hsource, htext, String.toList_singleton]
  rfl

/-! ## Lexemes of a source -/

theorem Tokenises.exists_fitsBefore {ts : List Token} {cs : List Char} (h : Tokenises ts cs) :
    ∀ t ∈ ts, ∃ rest, t.FitsBefore rest := by
  induction h with
  | nil => exact nofun
  | cons _ hfits _ ih => exact List.forall_mem_cons.mpr ⟨⟨_, hfits⟩, ih⟩

/-- A lexeme of a source is its end, or a token of it that is not empty and fits. -/
theorem cases_of_mem_lexemes {source : String} {l : Lexeme} (h : l ∈ lexemes source) :
    l.kind = .endOfFile ∧ l.start = Location.behind source.toList ∨
      l.kind ≠ .endOfFile ∧ l.content ≠ "" ∧ ∃ rest, l.token.FitsBefore rest := by
  obtain ⟨ls, stop, hlexemes, htokens, hkinds⟩ := lexemes_eq source
  have hsplit := hlexemes
  rw [hlexemes, List.mem_append, List.mem_singleton] at h
  rcases h with h | rfl
  · have htoken : l.token ∈ tokens source.toList := htokens ▸ List.mem_map_of_mem h
    exact .inr ⟨hkinds l h, content_ne_empty_of_mem_tokens _ l.token htoken,
      (tokenises_tokens source.toList).exists_fitsBefore l.token htoken⟩
  · refine .inl ⟨rfl, ?_⟩
    rw [start_of_lexemes_eq hsplit, ← textOf_lexemes source, hlexemes, textOf_append]
    exact congrArg Location.behind (List.append_nil _).symm

/-- What a lexeme is called is found where it begins. -/
theorem found_of_mem_lexemes {source : String} {l : Lexeme} (h : l ∈ lexemes source) :
    Found source l.start l.text := by
  have hstands := standsAt_of_mem_lexemes h
  unfold Lexeme.text
  rcases cases_of_mem_lexemes h with ⟨hend, hplace⟩ | ⟨hend, hne, rest, hfits⟩
  · rw [hend]
    exact .endOfFile hplace
  · split
    · rename_i hkind
      exact absurd hkind hend
    · rename_i hkind
      unfold Token.FitsBefore Lexeme.token at hfits
      simp only [hkind] at hfits
      exact .newLine hfits hstands
    · exact .text hne hstands

theorem content_of_exclamation {source : String} {l : Lexeme} (h : l ∈ lexemes source)
    (hkind : l.kind = .exclamation) : l.content = "!" := by
  rcases cases_of_mem_lexemes h with ⟨hend, -⟩ | ⟨-, -, rest, hfits⟩
  · exact nomatch hkind.symm.trans hend
  · unfold Token.FitsBefore Lexeme.token at hfits
    simp only [hkind] at hfits
    obtain ⟨c, hcontent, hc⟩ := hfits
    have hmark : c = '!' := by
      unfold LexemeKind.ofChar? at hc
      split at hc <;> first | rfl | exact nomatch hc
    rw [← String.toList_inj, hcontent, hmark]
    rfl

/-! ## The first lexemes of statements -/

namespace Statement

/-- The text with which a statement begins. -/
def Opening : Statement → String → Prop
  | .command _ name _, text => text = name
  | .expression _ _, text => text = "!" ∨ text = "$"
  | .declaration _ _ _ _, text => text = "function"

/-- The lexeme with which the statement begins, in its place. -/
structure Opens (s : Statement) (l : Lexeme) : Prop where
  place : s.place = l.start
  kind : match s with
    | .command _ name _ => l.IsWord name
    | .expression _ _ => l.kind = .exclamation ∨ l.kind = .word ∧ l.content.toList.head? = some '$'
    | .declaration _ _ _ _ => l.kind = .keyword ∧ l.content = "function"

end Statement

/-- What begins with no literal begins with the mark of a call or with a dollar sign. -/
theorem Expr.opens_of_yields {e : Expr} {l : Lexeme} {ls : List Lexeme} (h : e.Yields (l :: ls))
    (hliteral : ∀ v, e.first ≠ .literal v) :
    l.kind = .exclamation ∨ l.kind = .word ∧ l.content.toList.head? = some '$' := by
  obtain ⟨ls', hfirst⟩ := e.yields_first h
  have hbinary := e.first_ne_binary
  generalize e.first = first at hfirst hliteral hbinary
  have hdollar {name : String} (hw : l.IsWord ("$" ++ name)) : l.content.toList.head? = some '$' := by
    rw [hw.content, String.toList_append]
    rfl
  cases first with
  | literal v => exact absurd rfl (hliteral v)
  | «variable» name =>
    cases hfirst with
    | «variable» hw _ => exact .inr ⟨hw.kind, hdollar hw⟩
  | assign name value =>
    cases hfirst with
    | assign hw _ _ _ => exact .inr ⟨hw.kind, hdollar hw⟩
  | negate e =>
    cases hfirst with
    | negate hkind _ => exact .inl hkind
  | binary left op right => exact absurd rfl (hbinary left right op)
  | call name args =>
    cases hfirst with
    | call hkind _ _ _ => exact .inl hkind

namespace Statement

mutual

/-- The statements inside a statement begin with lexemes of it, in their order. -/
theorem exists_heads (s : Statement) {ls : List Lexeme} (h : s.Yields ls) (hactive : s.Active) :
    ∃ heads, heads.Sublist ls ∧ List.Forall₂ Opens s.parts heads := by
  cases s with
  | command place name args =>
    cases h with
    | command hw _ _ => exact ⟨[_], List.singleton_sublist.mpr List.mem_cons_self, .cons ⟨rfl, hw⟩ .nil⟩
  | expression place e =>
    cases h with
    | expression he =>
    cases hactive with
    | expression hfirst =>
      exact ⟨[_], List.singleton_sublist.mpr List.mem_cons_self,
        .cons ⟨rfl, Expr.opens_of_yields he hfirst⟩ .nil⟩
  | declaration place name params body =>
    cases h with
    | declaration hkind hcontent _ _ hbody _ =>
    cases hactive with
    | declaration hactive =>
      obtain ⟨heads, hsublist, hheads⟩ := exists_heads_of_all body hbody hactive
      refine ⟨_ :: heads, .cons_cons _ (.cons _ ?_), .cons ⟨rfl, hkind, hcontent⟩ hheads⟩
      exact hsublist.trans (List.sublist_append_right _ _)

theorem exists_heads_of_all (ss : List Statement) {ls : List Lexeme} (h : Repeated Yields ss ls)
    (hactive : ∀ s ∈ ss, s.Active) :
    ∃ heads, heads.Sublist ls ∧ List.Forall₂ Opens (partsOfAll ss) heads := by
  cases ss with
  | nil => exact ⟨[], List.nil_sublist _, .nil⟩
  | cons s ss =>
    cases h with
    | cons hs hss =>
      rw [List.forall_mem_cons] at hactive
      obtain ⟨heads, hsublist, hheads⟩ := exists_heads s hs hactive.1
      obtain ⟨heads', hsublist', hheads'⟩ := exists_heads_of_all ss hss hactive.2
      exact ⟨heads ++ heads', hsublist.append hsublist', List.rel_append hheads hheads'⟩

end

end Statement

/-! ## The lexemes of faults -/

namespace Position

theorem next_suffix (p : Position) : p.next.ahead <:+ p.ahead := by
  obtain ⟨i, l, _ | ⟨l', ls⟩⟩ := p
  · exact List.suffix_rfl
  · exact List.suffix_cons l _

theorem pass_suffix (skips : LexemeKind → Bool) (p : Position) : (p.pass skips).ahead <:+ p.ahead := by
  obtain ⟨skipped, -, heq⟩ := Cursor.ahead_passFrom skips p.index p.lexeme p.rest
  exact ⟨skipped, heq.symm⟩

/-- The second position is the first one, and stands in the lexemes. -/
def Within (ls : List Lexeme) (p q : Position) : Prop := q = p ∧ p.ahead <:+ ls

namespace Within

variable {ls : List Lexeme} {p q : Position}

theorem next (h : Within ls p q) : Within ls p.next q.next :=
  ⟨congrArg Position.next h.1, p.next_suffix.trans h.2⟩

theorem pass (skips : LexemeKind → Bool) (h : Within ls p q) :
    Within ls (p.pass skips) (q.pass skips) :=
  ⟨congrArg (Position.pass skips) h.1, (p.pass_suffix skips).trans h.2⟩

theorem mem (h : Within ls p q) : q.lexeme = p.lexeme ∧ p.lexeme ∈ ls :=
  ⟨congrArg Position.lexeme h.1, h.2.subset List.mem_cons_self⟩

theorem ends (h : Within ls p q) (hls : Ends ls) : Ends p.ahead ∧ Ends q.ahead := by
  obtain ⟨rfl, before, rfl⟩ := h
  obtain ⟨last, hlast, hend⟩ := hls
  have hends : Ends q.ahead := by
    refine ⟨last, ?_, hend⟩
    unfold ahead at hlast ⊢
    rw [List.getLast?_append, List.getLast?_cons] at hlast
    rw [List.getLast?_cons]
    exact hlast
  exact ⟨hends, hends⟩

end Within

end Position

namespace Parser

open Position (Within)

/-- The fault shows at one of the lexemes. -/
def ShowsIn (ls : List Lexeme) (e : ParseError) : Prop :=
  ∃ l ∈ ls, e.place = l.start ∧ e.found = l.text

variable {ls : List Lexeme} {c d : Cursor}

theorem within_skipWhile (skips : LexemeKind → Bool) (h : c.InStep (Within ls) d) :
    (c.skipWhile skips).InStep (Within ls) (d.skipWhile skips) :=
  ⟨h.position.pass skips, h.checkpoints⟩

theorem within_terminator (h : c.InStep (Within ls) d) :
    Agree True (fun e _ => ShowsIn ls e) id (Cursor.InStep (Within ls)) (terminator c)
      (terminator d) := by
  have hskip := within_skipWhile Skip.whitespace.skips h
  rw [terminator_apply, terminator_apply]
  generalize c.skipWhile Skip.whitespace.skips = c at hskip ⊢
  generalize d.skipWhile Skip.whitespace.skips = d at hskip ⊢
  obtain ⟨hpeek, hmem⟩ : d.peek = c.peek ∧ c.peek ∈ ls := hskip.position.mem
  have hnext : c.advance.InStep (Within ls) d.advance := ⟨hskip.position.next, hskip.checkpoints⟩
  dsimp only
  rw [hpeek]
  cases c.peek.kind with
  | semicolon | newLine | comment => exact ⟨d.advance, rfl, hnext⟩
  | endOfFile | rightBrace => exact ⟨d, rfl, hskip⟩
  | _ => exact fun _ => ⟨_, rfl, c.peek, hmem, rfl, rfl⟩

/-- A source beside itself: the cursors stand in the same place, on a lexeme of the source. -/
def withinSource (ls : List Lexeme) (hls : Ends ls) : Pairing where
  same l m := m = l ∧ l ∈ ls
  beside := Cursor.InStep (Within ls)
  past := Cursor.InStep (Within ls)
  strict := True
  alike e _ := ShowsIn ls e
  moved := id
  kind_eq h := by rw [h.1]
  content_eq h _ := by rw [h.1]
  unquote_eq h _ := by rw [h.1]
  fault _ h := ⟨_, h.2, rfl, rfl⟩
  moved_command _ _ h _ := by rw [h.1]; rfl
  moved_expression _ h _ := by rw [h.1]; rfl
  moved_declaration _ _ _ h _ := by rw [h.1, List.map_id]; rfl
  peek h := .inl h.position.mem
  advance h _ _ := ⟨h.position.next, h.checkpoints⟩
  skip h := within_skipWhile _ h
  search h := .inl (within_skipWhile _ h)
  mark h := h.mark
  commit h := h.commit
  rollback h := h.rollback
  past_of_beside := id
  closed h := h.position.ends hls
  terminator := within_terminator
  separators h := .inl ⟨within_skipWhile _ h, (h.position.pass _).mem⟩

theorem showsIn_of_ofLexemes {e : ParseError} (hls : Ends ls) (h : Script.ofLexemes ls = .error e) :
    ShowsIn ls e := by
  have hstart : (Cursor.ofLexemes ls).InStep (Within ls) (Cursor.ofLexemes ls) := by
    refine ⟨⟨rfl, ?_⟩, ?_⟩
    · change (Cursor.ofLexemes ls).ahead <:+ ls
      rw [Cursor.ahead_ofLexemes_of_ends hls]
    · rw [Cursor.checkpoints_ofLexemes]
      exact .nil
  have hscript := script_of_past (P := withinSource ls hls)
    (fun h => ⟨within_skipWhile _ h, (h.position.pass _).mem⟩) hstart
  unfold Script.ofLexemes at h
  rw [h] at hscript
  obtain ⟨e', -, hshows⟩ := hscript trivial
  exact hshows

end Parser

/-! ## Parsed sources -/

theorem ends_lexemes (source : String) : Ends (lexemes source) := by
  obtain ⟨ls, stop, hlexemes, -, -⟩ := lexemes_eq source
  rw [hlexemes]
  exact Ends.append ⟨Lexeme.endOfFile stop, rfl, rfl⟩ ls

theorem Script.exists_heads {source : String} {script : Script}
    (h : Script.parse source = .ok script) :
    ∃ heads, heads.Sublist (lexemes source) ∧
      List.Forall₂ Statement.Opens script.statements heads := by
  obtain ⟨ls, stop, hlexemes, -, hkinds⟩ := lexemes_eq source
  unfold Script.parse at h
  rw [hlexemes] at h ⊢
  obtain ⟨heads, hsublist, hheads⟩ := Statement.exists_heads_of_all script
    (Script.yields_of_ofLexemes hkinds h) (Script.active_of_ofLexemes hkinds h)
  refine ⟨heads, hsublist.trans ?_, hheads⟩
  exact List.filter_sublist.trans (List.sublist_append_left _ _)

/-- A statement that begins with a lexeme of a source begins there in the source. -/
theorem Statement.Opens.exists_opening {source : String} {s : Statement} {l : Lexeme}
    (h : s.Opens l) (hl : l ∈ lexemes source) :
    ∃ text, s.Opening text ∧ StandsAt source s.place text := by
  obtain ⟨hplace, hkind⟩ := h
  have hstands := standsAt_of_mem_lexemes hl
  rw [hplace]
  cases s with
  | command place name args => exact ⟨name, rfl, hkind.content ▸ hstands⟩
  | declaration place name params body => exact ⟨"function", rfl, hkind.2 ▸ hstands⟩
  | expression place e =>
    rcases hkind with hmark | ⟨-, hdollar⟩
    · exact ⟨"!", .inl rfl, content_of_exclamation hl hmark ▸ hstands⟩
    · exact ⟨"$", .inr rfl, hstands.head hdollar⟩

theorem exists_mem_of_forall₂ {α β : Type} {R : α → β → Prop} {as : List α} {bs : List β}
    (h : List.Forall₂ R as bs) : ∀ a ∈ as, ∃ b ∈ bs, R a b := by
  induction h with
  | nil => exact nofun
  | cons hab _ ih =>
    refine List.forall_mem_cons.mpr ⟨⟨_, List.mem_cons_self, hab⟩, fun a ha => ?_⟩
    obtain ⟨b, hb, hR⟩ := ih a ha
    exact ⟨b, List.mem_cons_of_mem _ hb, hR⟩

/-- The statements of a script, those in bodies among them, are placed one behind the other, each where
its text begins: with the name of a command, with `function`, or with the mark of a call or a dollar
sign. A source that is no script faults at one of its lexemes, of which the error tells the place and
what is found there. -/
theorem Script.parse_positions (source : String) :
    match Script.parse source with
    | .ok script =>
      (script.statements.map Statement.place).Pairwise Location.Before ∧
        ∀ s ∈ script.statements, ∃ text, s.Opening text ∧ StandsAt source s.place text
    | .error e =>
      (∃ l ∈ lexemes source, e.place = l.start ∧ e.found = l.text) ∧ Found source e.place e.found := by
  cases hparse : Script.parse source with
  | ok script =>
    obtain ⟨heads, hsublist, hheads⟩ := Script.exists_heads hparse
    have hplaces : script.statements.map Statement.place = heads.map Lexeme.start :=
      List.forall₂_eq_eq_eq ▸ List.forall₂_map_left_iff.mpr
        (List.forall₂_map_right_iff.mpr (hheads.imp fun _ _ h => h.place))
    have hordered : (lexemes source).Pairwise fun l l' => l.start.Before l'.start :=
      pairwise_before_place (content_ne_empty_of_mem_tokens _)
    refine ⟨?_, fun s hs => ?_⟩
    · rw [hplaces, List.pairwise_map]
      exact hordered.sublist hsublist
    · obtain ⟨l, hl, hopens⟩ := exists_mem_of_forall₂ hheads s hs
      exact hopens.exists_opening (hsublist.subset hl)
  | error e =>
    obtain ⟨l, hl, hplace, hfound⟩ := Parser.showsIn_of_ofLexemes (ends_lexemes source) hparse
    refine ⟨⟨l, hl, hplace, hfound⟩, ?_⟩
    rw [hplace, hfound]
    exact found_of_mem_lexemes hl

example : (Script.parse "function f() \x7b\n  one; !two 1 \x7d").toOption.map
    (fun script => script.statements.map Statement.place) = some [⟨1, 1⟩, ⟨2, 3⟩, ⟨2, 8⟩] := by
  decide +kernel

example : (match Script.parse "f (1\n" with
    | .ok _ => none
    | .error e => some (e.place, e.found)) = some (⟨1, 5⟩, "newline") := by
  decide +kernel

end CommandScript
