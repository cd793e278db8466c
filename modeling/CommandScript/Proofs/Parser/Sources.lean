import CommandScript.Proofs.Lexeme.Comments

/-!
Sources that are the same script. It makes no difference to a script, nor to where its statements stand,
whether its lines end with a line feed or with a carriage return and a line feed, nor whether there are
comments in it.
-/

namespace CommandScript.Script
set_option autoImplicit false

/-- Carriage returns before line feeds make no difference to a script; a fault is the same, on the same
line. -/
theorem parse_of_withoutReturns {source : String} (h : ReturnsPaired source.toList) :
    (∀ script, parse (withoutReturns source) = .ok script → parse source = .ok script) ∧
      ∀ e, parse (withoutReturns source) = .error e →
        ∃ e', parse source = .error e' ∧ Parser.FaultAlike e e' := by
  have halike := ofLexemes_of_alike (alike_withoutReturns h)
  refine ⟨fun script hparse => ?_, fun e hparse => ?_⟩
  · rw [show ofLexemes (lexemes (withoutReturns source)) = .ok script from hparse] at halike
    exact halike
  · rw [show ofLexemes (lexemes (withoutReturns source)) = .error e from hparse] at halike
    exact halike trivial

/-- A source with line feeds only is the same script, with its statements in the same places, when each
line ends with a carriage return and a line feed; what is no script fails with the same fault on the
same line. -/
theorem parse_withReturns {source : String} (h : '\r' ∉ source.toList) :
    (∀ script, parse source = .ok script → parse (withReturns source) = .ok script) ∧
      ∀ e, parse source = .error e →
        ∃ e', parse (withReturns source) = .error e' ∧ e'.fault = e.fault ∧
          e'.place.line = e.place.line := by
  have hparse := parse_of_withoutReturns (returnsPaired_withReturns h)
  rw [withoutReturns_withReturns h] at hparse
  exact hparse

/-- The carriage returns join blanks, a comment and a string without an end. -/
theorem parse_withReturns_blanks :
    let script : Script := [.command ⟨1, 1⟩ "f" [.literal (.number 1)], .command ⟨2, 1⟩ "g" []]
    let e : ParseError := ⟨.unterminatedString, ⟨2, 3⟩, "`\"a`"⟩
    '\r' ∉ "f 1 \ng # a\n".toList ∧ '\r' ∉ "f\ng \"a\nh".toList ∧
      withReturns "f 1 \ng # a\n" = "f 1 \r\ng # a\r\n" ∧
      (parse "f 1 \ng # a\n" = .ok script ∧ parse (withReturns "f 1 \ng # a\n") = .ok script) ∧
      ∃ e', parse "f\ng \"a\nh" = .error e ∧ parse (withReturns "f\ng \"a\nh") = .error e' ∧
        e'.fault = e.fault ∧ e'.place.line = e.place.line := by
  intro script e
  have hblanks : '\r' ∉ "f 1 \ng # a\n".toList := by decide
  have hstring : '\r' ∉ "f\ng \"a\nh".toList := by decide
  have hscript : parse "f 1 \ng # a\n" = .ok script := by decide +kernel
  have he : parse "f\ng \"a\nh" = .error e := by decide +kernel
  obtain ⟨e', he', halike⟩ := (parse_withReturns hstring).2 e he
  refine ⟨hblanks, hstring, by decide +kernel, ?_, e', he, he', halike⟩
  exact ⟨hscript, (parse_withReturns hblanks).1 script hscript⟩

/-- A script is the same, with its statements in the same places, without the text of its comments. -/
theorem parse_withoutComments {source : String} {script : Script}
    (hreturns : ReturnsPaired source.toList) (h : parse source = .ok script) :
    parse (withoutComments source) = .ok script := by
  -- Carriage returns are left out first, as a comment before one is not before a line feed.
  have hplain : parse (withoutReturns source) = .ok script := by
    have hreturned := parse_of_withoutReturns hreturns
    cases hparse : parse (withoutReturns source) with
    | error e =>
      obtain ⟨e', he', -⟩ := hreturned.2 e hparse
      rw [h] at he'
      exact nomatch he'
    | ok plain => rw [← h, hreturned.1 plain hparse]
  have hnone : '\r' ∉ (withoutReturns source).toList := by
    unfold withoutReturns
    rw [String.toList_ofList]
    exact not_mem_dropReturns _
  have hstripped := ofLexemes_of_alike (alike_withoutComments hnone)
  rw [show ofLexemes (lexemes (withoutReturns source)) = .ok script from hplain,
    ← withoutReturns_withoutComments hreturns] at hstripped
  exact (parse_of_withoutReturns (returnsPaired_withoutComments hreturns)).1 script hstripped

/-- Comments behind blanks, behind brackets and behind a string with a hash sign, which is no comment. -/
def commented : String :=
  "f 1 # a\r\nfunction g() \x7b# b\r\n f \"# c\" # d\r\n\x7d\r\n# e"

/-- What stands before the comments. -/
def commentedScript : Script :=
  [.command ⟨1, 1⟩ "f" [.literal (.number 1)],
   .declaration ⟨2, 1⟩ "g" [] [.command ⟨3, 2⟩ "f" [.literal (.text "# c")]]]

theorem returnsPaired_commented : ReturnsPaired commented.toList := by decide +kernel

theorem parse_withoutComments_commented :
    withoutComments commented = "f 1 \r\nfunction g() \x7b\r\n f \"# c\" \r\n\x7d\r\n" ∧
      ReturnsPaired commented.toList ∧
      parse commented = .ok commentedScript ∧
      parse (withoutComments commented) = .ok commentedScript := by
  have hscript : parse commented = .ok commentedScript := by decide +kernel
  refine ⟨by decide +kernel, returnsPaired_commented, hscript, ?_⟩
  exact parse_withoutComments returnsPaired_commented hscript

end CommandScript.Script
