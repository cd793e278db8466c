import CommandScript.Proofs.Lexeme.Seam
import CommandScript.Proofs.Parser.Alongside
import CommandScript.Proofs.Parser.Productions

/-!
Parsing two sources on lines one below the other. The parser of scripts comes to the end of the first
source with its statements, and goes on behind the line feed as if the second source began there; so
the script of both sources is that of the first one and that of the second one behind it, moved down.
-/

namespace CommandScript
set_option autoImplicit false

variable {k : Nat} {behind : Option (List Lexeme)}

namespace Parser

open Cursor (Beside)

/-! ## Scripts -/

theorem statement?_of_not_end {c : Cursor}
    (h : (c.skipWhile LexemeKind.isSeparator).peek.kind ≠ .endOfFile) :
    statement? false declaration c =
      (some <$> statement declaration) (c.skipWhile LexemeKind.isSeparator) := by
  unfold statement?
  rw [bind_apply]
  dsimp only [skipWhile]
  rw [bind_apply]
  dsimp only [peek]
  generalize c.skipWhile LexemeKind.isSeparator = c at h ⊢
  cases hkind : c.peek.kind with
  | endOfFile => exact absurd hkind h
  | _ => rfl

theorem statement?_ne_none {c c' : Cursor}
    (h : (c.skipWhile LexemeKind.isSeparator).peek.kind ≠ .endOfFile) :
    statement? false declaration c ≠ .ok (none, c') := by
  rw [statement?_of_not_end h, map_eq_pure_bind, bind_apply]
  generalize statement declaration _ = r
  rcases r with e | ⟨s, c''⟩
  · exact nofun
  · exact nofun

/-- Separators that are skipped anyway do not matter. -/
theorem script_of_skipWhile {d d' : Cursor} (hd : d.Closed) (hd' : d'.Closed)
    (h : d.skipWhile LexemeKind.isSeparator = d'.skipWhile LexemeKind.isSeparator) :
    script d = script d' := by
  have hstep : statement? false declaration d = statement? false declaration d' := by
    unfold statement?
    rw [bind_apply, bind_apply]
    dsimp only [skipWhile]
    rw [h]
  unfold script
  rw [many_apply progress_scriptStatement? hd, many_apply progress_scriptStatement? hd', hstep]

/-- Where the first source ends, the second one goes on as if it began behind the line feed. -/
theorem script_of_end {rest : List Lexeme} (hrest : Ends rest) {c d : Cursor}
    (h : Past k (some rest) c d) (hc : c.checkpoints = [])
    (hend : (c.skipWhile LexemeKind.isSeparator).peek.kind = .endOfFile) :
    ∃ d', d'.ahead = rest ∧ d'.checkpoints = [] ∧ script d = script d' := by
  rcases h with h | ⟨l, -, -, hbehind, hcheckpoints⟩
  · obtain ⟨skipped, hall, hahead⟩ := h.position.skipped rfl hend
    obtain ⟨q, hq, hpass⟩ := Position.exists_pass_eq hahead hall hrest.ne_nil
    have hcheckpoints : d.checkpoints = [] := by
      have hmarks := h.checkpoints
      rw [hc] at hmarks
      exact List.forall₂_nil_left_iff.mp hmarks
    have hclosed : Ends q.ahead := hq.symm ▸ hrest
    have hclosed' : d.Closed := h.closed_right (ends_of_mem_some hrest)
    refine ⟨⟨q, []⟩, hq, rfl, script_of_skipWhile hclosed' hclosed ?_⟩
    exact congrArg₂ Cursor.mk hpass hcheckpoints
  · rw [hc] at hcheckpoints
    exact ⟨d, (Option.some.inj hbehind).symm, List.forall₂_nil_left_iff.mp hcheckpoints, rfl⟩

/-- The statements of the first source are read, and then what is behind the line feed. -/
theorem script_seam {rest : List Lexeme} (hrest : Ends rest) {c c' d : Cursor} {ss : Script}
    (h : Past k (some rest) c d) (hc : c.checkpoints = []) (hp : script c = .ok (ss, c')) :
    ∃ d', d'.ahead = rest ∧ d'.checkpoints = [] ∧
      script d = (script d').map fun r => (ss.map (Statement.down k) ++ r.1, r.2) := by
  have hends := ends_of_mem_some hrest
  -- The cursors stand in step until the first source is used up; only then the second one is past the
  -- line feed, and what is left for it is the second source.
  induction n : c.ahead.length using Nat.strongRecOn generalizing c d ss with
  | _ n ih =>
    subst n
    obtain ⟨hclosed, hclosed'⟩ := h.closed hends
    unfold script at hp
    rw [many_apply progress_scriptStatement? hclosed] at hp
    by_cases hend : (c.skipWhile LexemeKind.isSeparator).peek.kind = .endOfFile
    · rw [statement?_of_end false hend] at hp
      cases hp
      obtain ⟨d', hahead, hcheckpoints, hscript⟩ := script_of_end hrest h hc hend
      refine ⟨d', hahead, hcheckpoints, hscript.trans ?_⟩
      cases script d' <;> rfl
    · rcases beside_separators h with ⟨hbeside, hsame⟩ | hcrossed
      · have hagree := agree_statement? (P := alongside k _ hends) tracks_declaration false hbeside
          hsame
        rcases hr : statement? false declaration c with e | ⟨_ | s, c₁⟩
        · rw [hr] at hp
          exact nomatch hp
        · exact absurd hr (statement?_ne_none hend)
        · rw [hr] at hp hagree
          obtain ⟨d₁, hd₁, hpast⟩ := hagree
          obtain ⟨ts, htook, -⟩ := progress_scriptStatement? _ hclosed rfl hr
          obtain ⟨-, hshorter⟩ := progress_scriptStatement?.shorter hclosed hr
          dsimp only at hp
          rcases hm : many (statement? false declaration) c₁ with e | ⟨more, c₂⟩
          · rw [hm] at hp
            exact nomatch hp
          · rw [hm] at hp
            cases hp
            obtain ⟨d', hahead, hcheckpoints, hscript⟩ :=
              ih _ hshorter hpast (htook.checkpoints.trans hc) hm rfl
            refine ⟨d', hahead, hcheckpoints, ?_⟩
            unfold script at hscript ⊢
            rw [many_apply progress_scriptStatement? hclosed', hd₁]
            dsimp only [Option.map_some]
            rw [hscript]
            cases many (statement? false declaration) d' <;> rfl
      · exact absurd hcrossed.2 hend

end Parser

/-! ## Sources -/

theorem alongside_seam {ls blanks rest : List Lexeme} {l feed : Lexeme}
    (hls : ∀ x ∈ ls, x.kind ≠ .endOfFile) (hblanks : ∀ b ∈ blanks, b.kind = .whitespace)
    (hl : l.kind = .endOfFile) (hfeed : feed.kind = .newLine) :
    Alongside 0 (some rest) (ls ++ (blanks ++ [l])) (ls ++ feed :: rest) := by
  induction ls with
  | nil => exact .seam rfl hblanks hl hfeed
  | cons x ls ih =>
    obtain ⟨hx, hls⟩ := List.forall_mem_cons.mp hls
    exact .cons hx (ih hls)

theorem alongside_down {ls : List Lexeme} {l : Lexeme} (hls : ∀ x ∈ ls, x.kind ≠ .endOfFile)
    (hl : l.kind = .endOfFile) :
    Alongside k none (ls ++ [l]) ((ls ++ [l]).map (Lexeme.down k)) := by
  induction ls with
  | nil => exact .closed rfl hl ⟨_, rfl, hl⟩
  | cons x ls ih =>
    obtain ⟨hx, hls⟩ := List.forall_mem_cons.mp hls
    exact .cons hx (ih hls)

namespace Cursor

theorem beside_ofLexemes {ls ls' : List Lexeme} (h : Alongside k behind ls ls') {d : Cursor}
    (hahead : d.ahead = ls') (hmarks : d.checkpoints = []) :
    (ofLexemes ls).Beside k behind d := by
  refine ⟨?_, ?_⟩
  · change Alongside k behind (ofLexemes ls).ahead d.ahead
    rwa [ahead_ofLexemes_of_ends h.ends_left, hahead]
  · rw [checkpoints_ofLexemes, hmarks]
    exact .nil

end Cursor

namespace Script

theorem alongside_lexemes_down (k : Nat) (source : String) :
    Alongside k none (lexemes source) ((lexemes source).map (Lexeme.down k)) := by
  obtain ⟨ls, stop, hlexemes, -, hkinds⟩ := lexemes_eq source
  rw [hlexemes]
  exact alongside_down hkinds rfl

theorem alongside_lexemes_seam (first second : String) :
    Alongside 0 (some ((lexemes second).map (Lexeme.down (lineFeeds first + 1)))) (lexemes first)
      (lexemes (first ++ "\n" ++ second)) := by
  obtain ⟨ls, blanks, feed, stop, hfirst, hboth, hkinds, hblanks, hfeed⟩ :=
    lexemes_seam first second
  rw [hfirst, hboth]
  exact alongside_seam hkinds hblanks rfl hfeed

/-- The same lexemes further down are the same statements, or have the same fault, moved down. -/
theorem script_of_alongside {ls : List Lexeme} {d : Cursor} (h : Alongside k none ls d.ahead)
    (hmarks : d.checkpoints = []) :
    (Parser.script d).map Prod.fst =
      match ofLexemes ls with
      | .ok more => .ok (more.map (Statement.down k))
      | .error e => .error (e.down k) := by
  have hwhole {c d : Cursor} (hpast : Parser.Past k none c d) :=
    (Parser.beside_separators hpast).resolve_right fun hend => hend.1 rfl
  have hdown := Parser.script_of_past (P := Parser.alongside k none nofun) hwhole
    (.inl (Cursor.beside_ofLexemes h rfl hmarks))
  unfold ofLexemes
  rcases hr : (Parser.script (Cursor.ofLexemes ls)).map Prod.fst with e | more
  · rw [hr] at hdown
    obtain ⟨e', hd, rfl⟩ := hdown rfl
    exact hd
  · rw [hr] at hdown
    exact hdown

/-- A source further down has the statements, or the fault, that it has alone, moved down. -/
theorem script_of_down (source : String) {d : Cursor}
    (hahead : d.ahead = (lexemes source).map (Lexeme.down k)) (hmarks : d.checkpoints = []) :
    (Parser.script d).map Prod.fst =
      match parse source with
      | .ok more => .ok (more.map (Statement.down k))
      | .error e => .error (e.down k) :=
  script_of_alongside (hahead ▸ alongside_lexemes_down k source) hmarks

/-- Below a source that is a script, another source has the statements, or the fault, that it has
alone, moved down by the lines above it. -/
theorem parse_seam {first : String} {script : Script} (h : parse first = .ok script)
    (second : String) :
    parse (first ++ "\n" ++ second) =
      match parse second with
      | .ok more => .ok (script ++ more.map (Statement.down (lineFeeds first + 1)))
      | .error e => .error (e.down (lineFeeds first + 1)) := by
  have hseam := alongside_lexemes_seam first second
  have hrest := (alongside_lexemes_down (lineFeeds first + 1) second).ends_right nofun
  have hends := hseam.ends_right (ends_of_mem_some hrest)
  have hbeside := Cursor.beside_ofLexemes hseam (Cursor.ahead_ofLexemes_of_ends hends)
    (Cursor.checkpoints_ofLexemes _)
  unfold parse ofLexemes at h
  rcases hrun : Parser.script (Cursor.ofLexemes (lexemes first)) with e | ⟨ss, c'⟩
  · rw [hrun] at h
    exact nomatch h
  · rw [hrun] at h
    obtain rfl : ss = script := Except.ok.inj h
    obtain ⟨d, hd, hmarks, hscript⟩ := Parser.script_seam hrest (.inl hbeside)
      (Cursor.checkpoints_ofLexemes _) hrun
    have hboth : parse (first ++ "\n" ++ second) =
        ((Parser.script d).map Prod.fst).map (ss ++ ·) := by
      rw [parse, ofLexemes, hscript, Statement.map_down_zero]
      cases Parser.script d <;> rfl
    rw [hboth, script_of_down second hd hmarks]
    cases parse second <;> rfl

/-- Parsing goes on behind a line feed as at the start of a source. Below a script, another script is
read as its own statements, moved down, and what is no script fails with its own fault, in the same
column as many lines further down. -/
theorem parse_append_newLine {first : String} {script : Script} (h : parse first = .ok script)
    (second : String) :
    (∀ more, parse second = .ok more →
      parse (first ++ "\n" ++ second) =
        .ok (script ++ more.map (Statement.down (lineFeeds first + 1)))) ∧
    ∀ e, parse second = .error e →
      ∃ e', parse (first ++ "\n" ++ second) = .error e' ∧ e'.fault = e.fault ∧ e'.found = e.found ∧
        e'.place = ⟨e.place.line + (lineFeeds first + 1), e.place.column⟩ := by
  have hseam := parse_seam h second
  refine ⟨fun more hmore => ?_, fun e he => ?_⟩
  · rw [hmore] at hseam
    exact hseam
  · rw [he] at hseam
    exact ⟨e.down (lineFeeds first + 1), hseam, rfl, rfl, rfl⟩

/-- The first source ends in a carriage return, which the line feed behind it joins; then comes a
declaration, or a bracket that is not closed. -/
theorem parse_append_newLine_carriageReturn :
    let script : Script := [.command ⟨1, 1⟩ "f" [.literal (.number 1)]]
    let more : Script := [.declaration ⟨1, 1⟩ "g" [] [.command ⟨1, 16⟩ "f" [.literal (.number 2)]]]
    let e : ParseError := ⟨.expectedExpression, ⟨1, 4⟩, "newline"⟩
    parse "f 1\r" = .ok script ∧ parse "function g() \x7b f 2 \x7d" = .ok more ∧
      parse "f (\n" = .error e ∧
      parse "f 1\r\nfunction g() \x7b f 2 \x7d" = .ok (script ++ more.map (Statement.down 1)) ∧
      ∃ e', parse "f 1\r\nf (\n" = .error e' ∧ e'.fault = e.fault ∧ e'.found = e.found ∧
        e'.place = ⟨e.place.line + 1, e.place.column⟩ := by
  intro script more e
  have hscript : parse "f 1\r" = .ok script := by decide +kernel
  have hmore : parse "function g() \x7b f 2 \x7d" = .ok more := by decide +kernel
  have herror : parse "f (\n" = .error e := by decide +kernel
  refine ⟨hscript, hmore, herror, ?_, ?_⟩
  · exact (parse_append_newLine hscript "function g() \x7b f 2 \x7d").1 more hmore
  · exact (parse_append_newLine hscript "f (\n").2 e herror

end Script

end CommandScript
