import CommandScript.Expr.Basic
import CommandScript.Proofs.Lexeme.Tokenisation

/-!
Quoted strings in a source. The main statement is that the reader finds the end of a quoted lexeme where the
scanner found it, and that a written string is one lexeme before any text and reads as the string.
-/

namespace CommandScript
set_option autoImplicit false

open Text (unquote? quote)

/-! ## Texts behind tokens -/

theorem Tokenises.flatMap_content {ts : List Token} {cs : List Char} (h : Tokenises ts cs) :
    ts.flatMap (fun t => t.content.toList) = cs := by
  rw [h.eq_tokens, tokens_flatMap_content]

/-- Each token fits before the text of those behind it. -/
theorem Tokenises.fitsBefore {before after : List Token} {t : Token} {cs : List Char}
    (h : Tokenises (before ++ t :: after) cs) :
    t.FitsBefore (after.flatMap fun t => t.content.toList) := by
  induction before generalizing cs with
  | nil =>
    cases h with
    | cons _ hfits hafter =>
      rw [hafter.flatMap_content]
      exact hfits
  | cons _ before ih =>
    cases h with
    | cons _ _ hrest => exact ih hrest

theorem textOf_eq (ls : List Lexeme) :
    textOf ls = (ls.map Lexeme.token).flatMap fun t => t.content.toList := by
  rw [List.flatMap_map]
  rfl

/-- Each lexeme but the last fits before the text of those behind it. -/
theorem fitsBefore_textOf {source : String} {before after : List Lexeme} {l : Lexeme}
    (h : lexemes source = before ++ l :: after) (hl : l.kind ≠ .endOfFile) :
    l.token.FitsBefore (textOf after) := by
  obtain ⟨ls, stop, hlexemes, htokens, -⟩ := lexemes_eq source
  rw [hlexemes] at h
  rcases List.eq_nil_or_concat after with rfl | ⟨after, last, rfl⟩
  · obtain ⟨-, hlast⟩ := List.append_inj' h rfl
    obtain ⟨rfl, -⟩ := List.cons.inj hlast
    exact absurd rfl hl
  rw [List.concat_eq_append, ← List.cons_append, ← List.append_assoc] at h
  obtain ⟨rfl, hlast⟩ := List.append_inj' h rfl
  obtain ⟨rfl, -⟩ := List.cons.inj hlast
  have hfits := tokenises_tokens source.toList
  rw [← htokens, List.map_append, List.map_cons] at hfits
  have htext : textOf (after ++ [Lexeme.endOfFile stop]) = textOf after :=
    (textOf_append after _).trans (List.append_nil _)
  rw [List.concat_eq_append, htext, textOf_eq]
  exact hfits.fitsBefore

/-! ## Scanning and reading -/

/-- The reader finds the end of the lexeme where the scanner, which stopped for the given reason, found it.
Behind the opening quote the lexeme has `body`, and `rest` is what the source has behind the lexeme. -/
structure Lexeme.ReadAsScanned (l : Lexeme) (body rest : List Char) (stop : QuoteStop) : Prop where
  content : l.content.toList = '"' :: body
  scanned : quotedScan 0 (body ++ rest) = (body.length, stop)
  lineFeed : stop = .lineFeed → rest.head? = some '\n'
  textEnd : stop = .textEnd → rest = []
  readable : (unquote? l.content).isSome ↔ stop = .quote
  closed : stop = .quote → ∀ part, part <+: '"' :: (body ++ rest) →
    ((unquote? (String.ofList part)).isSome ↔ part = '"' :: body)
  unclosed : stop ≠ .quote → ∀ part, part <+: '"' :: body → unquote? (String.ofList part) = none

theorem Lexeme.readAsScanned {l : Lexeme} {body rest : List Char} {stop : QuoteStop}
    (hl : l.content.toList = '"' :: body) (hfeed : '\n' ∉ body) (hstop : stop.Between body rest) : l.ReadAsScanned body rest stop := by
  have hcontent : l.content = String.ofList ('"' :: body) := by rw [← hl, String.ofList_toList]
  have hscan := quotedScan_of_between hfeed hstop 0
  rw [Nat.zero_add] at hscan
  have hreadable : (unquote? l.content).isSome ↔ behindQuote? body = some [] := by
    rw [hcontent, isSome_unquote?]
  cases stop with
  | quote =>
    exact ⟨hl, hscan, nofun, nofun, iff_of_true (hreadable.mpr hstop) rfl,
      fun _ part => isSome_unquote?_of_prefix hstop, fun h => absurd rfl h⟩
  | lineFeed =>
    refine ⟨hl, hscan, fun _ => hstop.2, nofun, ?_, nofun, fun _ part => unquote?_of_prefix hstop.1⟩
    rw [hreadable, hstop.1]
    exact iff_of_false nofun nofun
  | textEnd =>
    refine ⟨hl, hscan, nofun, fun _ => hstop.2, ?_, nofun, fun _ part => unquote?_of_prefix hstop.1⟩
    rw [hreadable, hstop.1]
    exact iff_of_false nofun nofun

/-- A quoted lexeme can be read just if the scanner stopped at a quote, and what is read ends at that
quote. A string that is written before any text is the first lexeme, which is read as that string. -/
theorem quoted_lexemes :
    (∀ n cs, (quotedScan n cs).1 = quotedLength n cs) ∧
    (∀ source before l after, lexemes source = before ++ l :: after → l.kind = .quotedString →
      ∃ body stop, source.toList = textOf before ++ '"' :: (body ++ textOf after) ∧
        l.ReadAsScanned body (textOf after) stop) ∧
    (∀ s t, ∃ l ls, lexemes ((Literal.text s).source ++ t) = l :: ls ∧ l.kind = .quotedString ∧
      l.content = (Literal.text s).source ∧ unquote? l.content = some s) := by
  refine ⟨quotedScan_fst, fun source before l after h hkind => ?_, fun s t => ?_⟩
  · have hfits : QuotedBefore l.content.toList (textOf after) := by
      have hfits := fitsBefore_textOf h (by rw [hkind]; nofun)
      unfold Token.FitsBefore at hfits
      rwa [Lexeme.token, hkind] at hfits
    obtain ⟨body, hbody⟩ := List.head?_eq_some_iff.mp hfits.quote
    rw [hbody] at hfits
    obtain ⟨stop, hstop⟩ := QuoteStop.between_of_ends hfits.ends
    refine ⟨body, stop, ?_, Lexeme.readAsScanned hbody ?_ hstop⟩
    · rw [← textOf_lexemes, h, textOf_append, ← List.cons_append, ← hbody]
      rfl
    · exact fun hfeed => hfits.lineFeed (List.mem_cons_of_mem _ hfeed)
  · let first : Token := ⟨.quotedString, quote s⟩
    refine ⟨first.placed .start, place (first.placed .start).stop (tokens t.toList), ?_, rfl, rfl,
      Text.unquote?_quote s⟩
    unfold lexemes Literal.source
    rw [String.toList_append, tokens_quote, place_cons]

/-- The second of two backslashes does not keep the quote behind it from ending the string. -/
theorem quoted_lexemes_backslashes :
    let source := "echo \"a\\\\\" \"b"
    let before : List Lexeme := [⟨.word, "echo", ⟨1, 1⟩, ⟨1, 5⟩⟩, ⟨.whitespace, " ", ⟨1, 5⟩, ⟨1, 6⟩⟩]
    let l : Lexeme := ⟨.quotedString, "\"a\\\\\"", ⟨1, 6⟩, ⟨1, 11⟩⟩
    let after : List Lexeme := [⟨.whitespace, " ", ⟨1, 11⟩, ⟨1, 12⟩⟩,
      ⟨.quotedString, "\"b", ⟨1, 12⟩, ⟨1, 14⟩⟩, .endOfFile ⟨1, 14⟩]
    lexemes source = before ++ l :: after ∧ l.kind = .quotedString ∧
      (∃ body stop, source.toList = textOf before ++ '"' :: (body ++ textOf after) ∧
        l.ReadAsScanned body (textOf after) stop) ∧
      unquote? l.content = some "a\\" := by
  intro source before l after
  have hlexemes : lexemes source = before ++ l :: after := by decide +kernel
  exact ⟨hlexemes, rfl, quoted_lexemes.2.1 source before l after hlexemes rfl, by decide +kernel⟩

end CommandScript
