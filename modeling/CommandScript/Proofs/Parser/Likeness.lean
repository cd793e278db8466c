import CommandScript.Proofs.Parser.Productions

/-!
Lexemes that are alike to a parser. Layout may be written in different ways and may end in different
columns, and a quoted string counts for what it stands for. If that is allowed, comments may be missing
where a line ends: a comment is for a parser what the end of the line behind it is. Alike lexemes are the
same script; they fail alike if no comment is missing.
-/

namespace CommandScript
set_option autoImplicit false

variable {strict : Prop}

/-! ## Alike lexemes -/

/-- The lexemes say the same and stand in the same place. Only where nothing begins the column is left
open. -/
structure Lexeme.Same (l m : Lexeme) : Prop where
  kind : m.kind = l.kind
  line : m.start.line = l.start.line
  start : l.kind.isIdle = false → m.start = l.start
  content : l.kind = .word ∨ l.kind = .keyword → m.content = l.content
  unquoted : l.kind = .quotedString → Text.unquote? m.content = Text.unquote? l.content

/-- The next lexeme ends the line. -/
def EndsHere (ls : List Lexeme) : Prop := ∀ l ∈ ls.head?, l.kind = .newLine ∨ l.kind = .endOfFile

/-- The same lexemes up to the ends of both sources. Unless that is to be `strict`, a comment at the end of
a line may be missing in the second source. -/
inductive Alike (strict : Prop) : List Lexeme → List Lexeme → Prop where
  | last {l m : Lexeme} : l.kind = .endOfFile → l.Same m → Alike strict [l] [m]
  | cons {l m : Lexeme} {ls ms : List Lexeme} :
      l.kind ≠ .endOfFile → l.Same m → Alike strict ls ms → Alike strict (l :: ls) (m :: ms)
  | comment {l : Lexeme} {ls ms : List Lexeme} : ¬strict → l.kind = .comment → EndsHere ls →
      Alike strict ls ms → Alike strict (l :: ls) ms

namespace Alike

variable {l m : Lexeme} {ls ms : List Lexeme}

theorem ends (h : Alike strict ls ms) : Ends ls ∧ Ends ms := by
  induction h with
  | @last l m hend hsame => exact ⟨⟨l, rfl, hend⟩, ⟨m, rfl, hsame.kind.trans hend⟩⟩
  | cons _ _ _ ih => exact ⟨ih.1.cons, ih.2.cons⟩
  | comment _ _ _ _ ih => exact ⟨ih.1.cons, ih.2⟩

/-- Where a line ends in the first source, it ends in the second one. -/
theorem kind_of_endsHere (h : Alike strict ls (m :: ms)) (hends : EndsHere ls) :
    m.kind = .newLine ∨ m.kind = .endOfFile := by
  cases h with
  | last hend hsame => exact .inr (hsame.kind.trans hend)
  | cons _ hsame _ => exact hsame.kind ▸ hends _ rfl
  | comment _ hcomment _ _ =>
    rcases hends _ rfl with h | h <;> exact nomatch hcomment.symm.trans h

/-- Both sources go on with the same lexeme, or a comment is missing before the end of the line. -/
theorem head (h : Alike strict (l :: ls) (m :: ms)) :
    l.Same m ∨ ¬strict ∧ l.kind = .comment ∧ (m.kind = .newLine ∨ m.kind = .endOfFile) := by
  cases h with
  | last _ hsame => exact .inl hsame
  | cons _ hsame _ => exact .inl hsame
  | comment hstrict hcomment hends hrest =>
    exact .inr ⟨hstrict, hcomment, hrest.kind_of_endsHere hends⟩

theorem tail (h : Alike strict (l :: ls) (m :: ms)) (hsame : l.Same m) (hend : l.kind ≠ .endOfFile) :
    Alike strict ls ms := by
  cases h with
  | last hlast _ => exact absurd hlast hend
  | cons _ _ hrest => exact hrest
  | comment _ hcomment hends hrest =>
    rcases hrest.kind_of_endsHere hends with h | h <;>
      exact nomatch (hcomment.symm.trans hsame.kind.symm).trans h

/-- Behind a comment that is missing in the second source, the line ends in both. -/
theorem behind (h : Alike strict (l :: ls) (m :: ms)) (hl : l.kind = .comment)
    (hm : m.kind ≠ .comment) : EndsHere ls ∧ Alike strict ls (m :: ms) := by
  cases h with
  | last hend _ => exact nomatch hl.symm.trans hend
  | cons _ hsame _ => exact absurd (hsame.kind.trans hl) hm
  | comment _ _ hends hrest => exact ⟨hends, hrest⟩

end Alike

/-! ## Positions and cursors -/

namespace Position

variable {p q : Position}

/-- The lexemes ahead are alike. -/
def Alike (strict : Prop) (p q : Position) : Prop := CommandScript.Alike strict p.ahead q.ahead

theorem Alike.head (h : p.Alike strict q) :
    p.lexeme.Same q.lexeme ∨ ¬strict ∧ p.lexeme.kind = .comment ∧
      (q.lexeme.kind = .newLine ∨ q.lexeme.kind = .endOfFile) :=
  CommandScript.Alike.head h

theorem Alike.next (h : p.Alike strict q) (hsame : p.lexeme.Same q.lexeme)
    (hend : p.lexeme.kind ≠ .endOfFile) : p.next.Alike strict q.next := by
  have hrest := CommandScript.Alike.tail h hsame hend
  unfold Alike
  rwa [ahead_next rfl hrest.ends.1.ne_nil, ahead_next rfl hrest.ends.2.ne_nil]

theorem Alike.behind (h : p.Alike strict q) (hp : p.lexeme.kind = .comment)
    (hq : q.lexeme.kind ≠ .comment) : p.next.Alike strict q ∧ p.next.lexeme.Same q.lexeme := by
  obtain ⟨hends, hrest⟩ := CommandScript.Alike.behind h hp hq
  have hahead : p.next.ahead = p.rest := ahead_next rfl hrest.ends.1.ne_nil
  have hnext : p.next.Alike strict q := by
    unfold Alike
    rwa [hahead]
  refine ⟨hnext, hnext.head.resolve_right fun hcomment => ?_⟩
  rw [← hahead] at hends
  rcases hends p.next.lexeme rfl with h | h <;> exact nomatch hcomment.2.1.symm.trans h

/-- Both positions skip the same lexemes, unless the first one comes to a comment that is missing in
the second source, and skips line ends but no comments. -/
theorem Alike.pass {skips : LexemeKind → Bool} (h : p.Alike strict q)
    (hend : skips .endOfFile = false) :
    (p.pass skips).Alike strict (q.pass skips) ∨
      ¬strict ∧ skips .newLine ∧ skips .comment = false ∧
        (p.pass skips).lexeme.kind = .comment := by
  unfold Alike at h
  generalize hp : p.ahead = ls at h
  generalize hq : q.ahead = ms at h
  induction h generalizing p q with
  | @last l m hlast hsame =>
    obtain ⟨hl, -⟩ := List.cons.inj hp
    obtain ⟨hm, -⟩ := List.cons.inj hq
    rw [pass_of_not_skips (by rw [hl, hlast, hend]),
      pass_of_not_skips (by rw [hm, hsame.kind, hlast, hend])]
    unfold Alike
    rw [hp, hq]
    exact .inl (.last hlast hsame)
  | @cons l m ls ms hkind hsame hrest ih =>
    obtain ⟨hl, -⟩ := List.cons.inj hp
    obtain ⟨hm, -⟩ := List.cons.inj hq
    obtain ⟨hls, hms⟩ := hrest.ends
    by_cases hskips : skips l.kind
    · rw [pass_of_skips hp hls.ne_nil hskips, pass_of_skips hq hms.ne_nil (hsame.kind ▸ hskips)]
      exact ih (ahead_next hp hls.ne_nil) (ahead_next hq hms.ne_nil)
    · rw [Bool.not_eq_true] at hskips
      rw [pass_of_not_skips (by rw [hl, hskips]),
        pass_of_not_skips (by rw [hm, hsame.kind, hskips])]
      unfold Alike
      rw [hp, hq]
      exact .inl (.cons hkind hsame hrest)
  | @comment l ls ms hstrict hcomment hends hrest ih =>
    obtain ⟨hl, -⟩ := List.cons.inj hp
    have hls := hrest.ends.1.ne_nil
    cases hskips : skips .comment with
    | true =>
      rw [pass_of_skips hp hls (hcomment ▸ hskips)]
      have hnext := ih (ahead_next hp hls) hq
      rw [hskips] at hnext
      exact .inl (hnext.resolve_right nofun)
    | false =>
      rw [pass_of_not_skips (by rw [hl, hcomment, hskips])]
      cases hfeed : skips .newLine with
      | true => exact .inr ⟨hstrict, rfl, rfl, by rw [hl, hcomment]⟩
      | false =>
        -- What the second source has in place of the comment ends the line, and is not skipped.
        have hm : q.lexeme.kind = .newLine ∨ q.lexeme.kind = .endOfFile :=
          CommandScript.Alike.kind_of_endsHere (hq ▸ hrest) hends
        have hstay : skips q.lexeme.kind = false := by
          rcases hm with hm | hm <;> rw [hm] <;> assumption
        rw [pass_of_not_skips hstay]
        unfold Alike
        rw [hp, hq]
        exact .inl (.comment hstrict hcomment hends hrest)

end Position

namespace Cursor

variable {c d : Cursor}

/-- The lexemes ahead and behind each mark are alike. -/
abbrev Alike (strict : Prop) (c d : Cursor) : Prop := c.InStep (Position.Alike strict) d

/-- The first cursor stands on the end of a line, and the second one is alike behind it. -/
def Lags (strict : Prop) (c d : Cursor) : Prop :=
  ¬strict ∧ c.peek.kind = .newLine ∧ c.advance.Alike strict d

theorem Alike.closed (h : c.Alike strict d) : c.Closed ∧ d.Closed := CommandScript.Alike.ends h.position

theorem Alike.peek (h : c.Alike strict d) :
    c.peek.Same d.peek ∨ ¬strict ∧ c.peek.kind = .comment ∧
      (d.peek.kind = .newLine ∨ d.peek.kind = .endOfFile) :=
  h.position.head

theorem Alike.advance (h : c.Alike strict d) (hsame : c.peek.Same d.peek)
    (hend : c.peek.kind ≠ .endOfFile) : c.advance.Alike strict d.advance :=
  ⟨h.position.next hsame hend, h.checkpoints⟩

theorem Alike.behind (h : c.Alike strict d) (hc : c.peek.kind = .comment)
    (hd : d.peek.kind ≠ .comment) : c.advance.Alike strict d ∧ c.advance.peek.Same d.peek :=
  (h.position.behind hc hd).imp_left fun hnext => ⟨hnext, h.checkpoints⟩

theorem Alike.skipWhile {skips : LexemeKind → Bool} (h : c.Alike strict d)
    (hend : skips .endOfFile = false) :
    (c.skipWhile skips).Alike strict (d.skipWhile skips) ∨
      ¬strict ∧ skips .newLine ∧ skips .comment = false ∧
        (c.skipWhile skips).peek.kind = .comment :=
  (h.position.pass hend).imp_left fun hpass => ⟨hpass, h.checkpoints⟩

theorem Lags.closed (h : c.Lags strict d) : c.Closed ∧ d.Closed := by
  obtain ⟨-, -, halike⟩ := h
  refine ⟨?_, halike.closed.2⟩
  have hends : Ends c.advance.ahead := halike.closed.1
  obtain ⟨⟨index, lexeme, _ | ⟨l, ls⟩⟩, checkpoints⟩ := c
  · exact hends
  · exact hends.cons

end Cursor

/-! ## Parsing alike lexemes -/

namespace Parser

open Cursor (Alike Lags)

variable {c d : Cursor}

/-- How the cursors stand behind a statement. -/
def Level (strict : Prop) (c d : Cursor) : Prop := c.Alike strict d ∨ c.Lags strict d

/-- The same fault on the same line. -/
def FaultAlike (e e' : ParseError) : Prop := e'.fault = e.fault ∧ e'.place.line = e.place.line

theorem level_terminator (h : c.Alike strict d) :
    Agree strict FaultAlike id (Level strict) (terminator c) (terminator d) := by
  have hskip : (c.skipWhile Skip.whitespace.skips).Alike strict (d.skipWhile Skip.whitespace.skips) :=
    (h.skipWhile rfl).resolve_right fun hno => nomatch hno.2.1
  rw [terminator_apply, terminator_apply]
  generalize c.skipWhile Skip.whitespace.skips = c at hskip ⊢
  generalize d.skipWhile Skip.whitespace.skips = d at hskip ⊢
  dsimp only
  rcases hskip.peek with hsame | ⟨hstrict, hcomment, hm⟩
  · rw [hsame.kind]
    cases hl : c.peek.kind with
    | semicolon | newLine | comment =>
      exact ⟨d.advance, rfl, .inl (hskip.advance hsame (by rw [hl]; decide))⟩
    | endOfFile | rightBrace => exact ⟨d, rfl, .inl hskip⟩
    | _ => exact fun _ => ⟨_, rfl, rfl, hsame.line⟩
  · -- The comment ends the statement in the first source; in the second one the end of the line does.
    rw [hcomment]
    have hd : d.peek.kind ≠ .comment := by
      rcases hm with hm | hm <;> rw [hm] <;> decide
    obtain ⟨hnext, hsame⟩ := hskip.behind hcomment hd
    rcases hm with hm | hm
    · rw [hm]
      have hfeed : c.advance.peek.kind = .newLine := hsame.kind.symm.trans hm
      refine ⟨d.advance, rfl, .inr ⟨hstrict, hfeed, hnext.advance hsame ?_⟩⟩
      rw [hfeed]
      decide
    · rw [hm]
      exact ⟨d, rfl, .inl hnext⟩

/-- Behind a statement both sources come to the same lexeme. -/
theorem level_separators (h : Level strict c d) :
    (c.skipWhile LexemeKind.isSeparator).Alike strict (d.skipWhile LexemeKind.isSeparator) ∧
      (c.skipWhile LexemeKind.isSeparator).peek.Same
        (d.skipWhile LexemeKind.isSeparator).peek := by
  have halike (c d : Cursor) (h : c.Alike strict d) :
      (c.skipWhile LexemeKind.isSeparator).Alike strict (d.skipWhile LexemeKind.isSeparator) :=
    (h.skipWhile rfl).resolve_right fun hno => nomatch hno.2.2.1
  have hskip : (c.skipWhile LexemeKind.isSeparator).Alike strict
      (d.skipWhile LexemeKind.isSeparator) := by
    rcases h with h | ⟨-, hfeed, h⟩
    · exact halike c d h
    · rw [Cursor.skipWhile_advance (by rw [hfeed]; rfl)]
      exact halike c.advance d h
  have hclosed : c.Closed := h.elim (fun h => h.closed.1) fun h => h.closed.1
  refine ⟨hskip, hskip.peek.resolve_right fun hcomment => ?_⟩
  have hseparator : (c.skipWhile LexemeKind.isSeparator).peek.kind.isSeparator = false :=
    Cursor.skips_peek_skipWhile rfl hclosed
  rw [hcomment.2.1] at hseparator
  exact nomatch hseparator

/-- Two sources with alike lexemes. -/
def likeness (strict : Prop) : Pairing where
  same := Lexeme.Same
  beside := Cursor.Alike strict
  past := Level strict
  strict := strict
  alike := FaultAlike
  moved := id
  kind_eq h := h.kind
  content_eq h := h.content
  unquote_eq h := h.unquoted
  fault _ h := ⟨rfl, h.line⟩
  moved_command _ _ h hidle := by rw [h.start hidle]; rfl
  moved_expression _ h hidle := by rw [h.start hidle]; rfl
  moved_declaration _ _ _ h hidle := by rw [h.start hidle, List.map_id]; rfl
  peek h := by
    rcases h.peek with hsame | ⟨hstrict, hc, hd⟩
    · exact .inl hsame
    · refine .inr ⟨hstrict, by rw [hc]; rfl, ?_⟩
      rcases hd with hd | hd <;> rw [hd] <;> rfl
  advance h hsame hidle := h.advance hsame fun hend => nomatch hend ▸ hidle
  skip h := (h.skipWhile rfl).resolve_right fun hno => nomatch hno.2.1
  search h := (h.skipWhile rfl).imp_right fun ⟨hstrict, _, _, hkind⟩ =>
    ⟨hstrict, congrArg LexemeKind.isIdle hkind⟩
  mark h := h.mark
  commit h := h.commit
  rollback h := h.rollback
  past_of_beside := .inl
  closed h := h.elim Cursor.Alike.closed Cursor.Lags.closed
  terminator := level_terminator
  separators h := .inl (level_separators h)

end Parser

/-- Alike lexemes are the same script. A fault is the same, on the same line, if no comment is
missing. -/
theorem Script.ofLexemes_of_alike {ls ms : List Lexeme} (h : Alike strict ls ms) :
    match ofLexemes ls with
    | .ok script => ofLexemes ms = .ok script
    | .error e => strict → ∃ e', ofLexemes ms = .error e' ∧ Parser.FaultAlike e e' := by
  have halike : (Cursor.ofLexemes ls).Alike strict (Cursor.ofLexemes ms) :=
    .ofLexemes h.ends.1 h.ends.2 h
  have hscript := Parser.script_of_past (P := Parser.likeness strict) Parser.level_separators
    (.inl halike)
  rw [show (Parser.likeness strict).moved = id from rfl] at hscript
  simp only [List.map_id] at hscript
  exact hscript

end CommandScript
