import Mathlib.Data.List.Forall2
import CommandScript.Proofs.Lexeme.Placed
import CommandScript.Proofs.Parser.Takes

/-!
Parsers on texts. `Answers` says which answer a parser has at the front of one text, and at which
text it stops; the places of lexemes play no part in it. It is said in two ways at once: that there is
such an answer, or only that there is no other one, so that the parser may fault. There is one rule
for each way to make parsers.
-/

namespace CommandScript
set_option autoImplicit false

/-! ## The front of a text -/

/-- The end of a source as a token. -/
def Token.endOfFile : Token := ⟨.endOfFile, ""⟩

/-- The tokens of a text and the end behind them. -/
def closedTokens (cs : List Char) : List Token := tokens cs ++ [Token.endOfFile]

/-- The first token of a text, the end if it has none. -/
def front (cs : List Char) : Token := (tokens cs).headD Token.endOfFile

theorem front_of_tokens {cs : List Char} {t : Token} {ts : List Token} (h : tokens cs = t :: ts) :
    front cs = t := by
  unfold front
  rw [h]
  rfl

theorem closedTokens_eq (cs : List Char) : ∃ ts, closedTokens cs = front cs :: ts := by
  unfold closedTokens front
  cases tokens cs with
  | nil => exact ⟨[], rfl⟩
  | cons t ts => exact ⟨ts ++ [Token.endOfFile], rfl⟩

theorem Lexeme.kind_of_token {l : Lexeme} {t : Token} (h : l.token = t) : l.kind = t.kind :=
  congrArg Token.kind h

theorem Lexeme.content_of_token {l : Lexeme} {t : Token} (h : l.token = t) : l.content = t.content :=
  congrArg Token.content h

/-- Tokens that are skipped stand before the second text, which does not begin with such a token. -/
inductive Skipped (skips : LexemeKind → Bool) : List Char → List Char → Prop where
  | stay {cs : List Char} : skips (front cs).kind = false → Skipped skips cs cs
  | step {cs rest stop : List Char} {t : Token} :
      tokens cs = t :: tokens rest → skips t.kind → Skipped skips rest stop → Skipped skips cs stop

theorem Skipped.front_kind {skips : LexemeKind → Bool} {cs stop : List Char}
    (h : Skipped skips cs stop) : skips (front stop).kind = false := by
  induction h with
  | stay h => exact h
  | step _ _ _ ih => exact ih

namespace Cursor

variable {c : Cursor} {cs rest : List Char} {t : Token} {skips : LexemeKind → Bool}

/-- The cursor stands at the front of the text. -/
def AtFront (c : Cursor) (cs : List Char) : Prop := c.ahead.map Lexeme.token = closedTokens cs

theorem AtFront.token_peek (h : c.AtFront cs) : c.peek.token = front cs := by
  obtain ⟨ts, hts⟩ := closedTokens_eq cs
  unfold AtFront at h
  rw [hts, ahead_eq, List.map_cons] at h
  exact (List.cons.inj h).1

theorem AtFront.advance (h : c.AtFront cs) (ht : tokens cs = t :: tokens rest) :
    c.advance.AtFront rest := by
  obtain ⟨⟨index, lexeme, behind⟩, checkpoints⟩ := c
  unfold AtFront closedTokens ahead at h
  rw [ht, List.map_cons, List.cons_append] at h
  have hbehind := (List.cons.inj h).2
  cases behind with
  | nil => exact absurd hbehind.symm (List.append_ne_nil_of_right_ne_nil _ (List.cons_ne_nil _ _))
  | cons l ls => exact hbehind

theorem AtFront.closed (h : c.AtFront cs) : c.Closed := by
  have hlast : (c.ahead.map Lexeme.token).getLast? = some Token.endOfFile := by
    rw [h]
    unfold closedTokens
    rw [List.getLast?_append]
    rfl
  rw [List.getLast?_map, Option.map_eq_some_iff] at hlast
  obtain ⟨last, hahead, htoken⟩ := hlast
  exact ⟨last, hahead, congrArg Token.kind htoken⟩

theorem AtFront.kind_peek (h : c.AtFront cs) : c.peek.kind = (front cs).kind :=
  Lexeme.kind_of_token h.token_peek

theorem AtFront.skipWhile (h : c.AtFront cs) (hskipped : Skipped skips cs rest) :
    (c.skipWhile skips).AtFront rest := by
  induction hskipped generalizing c with
  | stay hfront =>
    rw [skipWhile_of_not (h.kind_peek ▸ hfront)]
    exact h
  | step ht hskips _ ih =>
    have hpeek := h.kind_peek
    rw [front_of_tokens ht] at hpeek
    rw [skipWhile_advance (hpeek ▸ hskips)]
    exact ih (h.advance ht)

end Cursor

/-! ## Answers -/

namespace Parser

variable {α β : Type}

/-- At the front of `cs` the parser answers as `P` says and stops at the front of `stop`; the marks
are as they were. Unless it has to be `strict`, the parser may stop with a fault instead. -/
def Answers (strict : Prop) (p : Parser α) (cs stop : List Char) (P : α → Prop) : Prop :=
  ∀ ⦃c : Cursor⦄, c.AtFront cs →
    (∃ a c', p c = .ok (a, c') ∧ c'.AtFront stop ∧ c'.checkpoints = c.checkpoints ∧ P a) ∨
      ¬ strict ∧ ∃ fault, p c = .error fault

variable {strict : Prop} {p : Parser α} {cs mid stop : List Char} {P : α → Prop} {Q : β → Prop}
  {t : Token} {mode : Skip} {wanted : Lexeme → Bool}

theorem Answers.weaken {P' : α → Prop} (h : Answers strict p cs stop P) (hP : ∀ a, P a → P' a) :
    Answers strict p cs stop P' := by
  intro c hc
  rcases h hc with ⟨a, c', hp, hc', hmarks, ha⟩ | hfault
  · exact .inl ⟨a, c', hp, hc', hmarks, hP a ha⟩
  · exact .inr hfault

/-- A parser that has to be strict has the answer. -/
theorem Answers.of_strict (h : Answers True p cs stop P) ⦃c : Cursor⦄ (hc : c.AtFront cs) :
    ∃ a c', p c = .ok (a, c') ∧ c'.AtFront stop ∧ c'.checkpoints = c.checkpoints ∧ P a := by
  rcases h hc with hanswer | ⟨hstrict, -⟩
  · exact hanswer
  · exact absurd trivial hstrict

/-- An answer that there is, is as the parser answers. -/
theorem Answers.of_ok (h : Answers strict p cs stop P) {c c' : Cursor} (hc : c.AtFront cs) {a : α}
    (hrun : p c = .ok (a, c')) : P a := by
  rcases h hc with ⟨b, c'', hok, -, -, hb⟩ | ⟨-, fault, herror⟩
  · cases hrun.symm.trans hok
    exact hb
  · exact nomatch hrun.symm.trans herror

theorem answers_pure {a : α} (h : P a) : Answers strict (pure a) cs cs P :=
  fun c hc => .inl ⟨a, c, rfl, hc, rfl, h⟩

theorem answers_fail (hstrict : ¬ strict) (fault : SyntaxFault) (l : Lexeme) :
    Answers strict (fail fault l) cs stop P :=
  fun _ _ => .inr ⟨hstrict, _, rfl⟩

theorem Answers.bind {f : α → Parser β} (hp : Answers strict p cs mid P)
    (hf : ∀ a, P a → Answers strict (f a) mid stop Q) : Answers strict (p >>= f) cs stop Q := by
  intro c hc
  rcases hp hc with ⟨a, c', hrun, hc', hmarks, ha⟩ | ⟨hstrict, fault, hrun⟩
  · rcases hf a ha hc' with ⟨b, c'', hrun', hc'', hmarks', hb⟩ | ⟨hstrict, fault, hrun'⟩
    · refine .inl ⟨b, c'', ?_, hc'', hmarks'.trans hmarks, hb⟩
      rw [bind_apply, hrun]
      exact hrun'
    · refine .inr ⟨hstrict, fault, ?_⟩
      rw [bind_apply, hrun]
      exact hrun'
  · refine .inr ⟨hstrict, fault, ?_⟩
    rw [bind_apply, hrun]

theorem Answers.map {f : α → β} (hp : Answers strict p cs stop P) (hf : ∀ a, P a → Q (f a)) :
    Answers strict (f <$> p) cs stop Q := by
  rw [map_eq_pure_bind]
  exact hp.bind fun a ha => answers_pure (hf a ha)

theorem answers_peek_bind {f : Lexeme → Parser β}
    (h : ∀ l : Lexeme, l.token = front cs → Answers strict (f l) cs stop Q) :
    Answers strict (peek >>= f) cs stop Q :=
  fun c hc => h c.peek hc.token_peek hc

theorem answers_peek_front {f : Lexeme → Parser β} {kind : LexemeKind} {content : String}
    (hfront : front cs = ⟨kind, content⟩)
    (h : ∀ l : Lexeme, l.kind = kind → l.content = content → Answers strict (f l) cs stop Q) :
    Answers strict (peek >>= f) cs stop Q := by
  refine answers_peek_bind fun l hl => ?_
  rw [hfront] at hl
  exact h l (Lexeme.kind_of_token hl) (Lexeme.content_of_token hl)

theorem answers_peekPast_bind {f : Lexeme → Parser β} (h : ∀ l, Answers strict (f l) cs stop Q) :
    Answers strict (peekPast mode >>= f) cs stop Q :=
  fun c hc => h (c.peekPast mode) hc

theorem answers_advance (ht : tokens cs = t :: tokens stop) :
    Answers strict advance cs stop fun l => l.token = t := by
  intro c hc
  have hpeek := hc.token_peek.trans (front_of_tokens ht)
  exact .inl ⟨c.peek, c.advance, rfl, hc.advance ht, rfl, hpeek⟩

theorem answers_skipWhile {skips : LexemeKind → Bool} (h : Skipped skips cs stop) :
    Answers strict (skipWhile skips) cs stop fun _ => True :=
  fun c hc => .inl ⟨(), c.skipWhile skips, rfl, hc.skipWhile h, rfl, trivial⟩

theorem answers_skip (h : Skipped mode.skips cs stop) :
    Answers strict (skip mode) cs stop fun _ => True :=
  answers_skipWhile h

theorem tryTakeIf_apply (c : Cursor) :
    tryTakeIf wanted mode c =
      .ok (if wanted (c.peekPast mode) then
        (some (c.peekPast mode), (c.skipWhile mode.skips).advance) else (none, c)) := rfl

theorem answers_tryTakeIf (hskipped : Skipped mode.skips cs mid) (ht : tokens mid = t :: tokens stop)
    (hwanted : ∀ l : Lexeme, l.token = t → wanted l) :
    Answers strict (tryTakeIf wanted mode) cs stop fun o => ∃ l, o = some l ∧ l.token = t := by
  intro c hc
  have hmid := hc.skipWhile hskipped
  have hpeek : (c.peekPast mode).token = t := by
    rw [Cursor.peekPast_eq, hmid.token_peek, front_of_tokens ht]
  refine .inl ⟨some (c.peekPast mode), (c.skipWhile mode.skips).advance, ?_, hmid.advance ht, rfl, _,
    rfl, hpeek⟩
  rw [tryTakeIf_apply, if_pos (hwanted _ hpeek)]

theorem answers_tryTakeIf_none (hskipped : Skipped mode.skips cs mid)
    (hwanted : ∀ l : Lexeme, l.token = front mid → wanted l = false) :
    Answers strict (tryTakeIf wanted mode) cs cs (· = none) := by
  intro c hc
  have hpeek : (c.peekPast mode).token = front mid := by
    rw [Cursor.peekPast_eq, (hc.skipWhile hskipped).token_peek]
  refine .inl ⟨none, c, ?_, hc, rfl, rfl⟩
  rw [tryTakeIf_apply, if_neg (by rw [hwanted _ hpeek]; decide)]

theorem answers_tryTake (hskipped : Skipped mode.skips cs mid) (ht : tokens mid = t :: tokens stop) :
    Answers strict (tryTake t.kind mode) cs stop fun o => ∃ l, o = some l ∧ l.token = t :=
  answers_tryTakeIf hskipped ht fun _ hl => beq_iff_eq.mpr (Lexeme.kind_of_token hl)

theorem answers_tryTake_none {kind : LexemeKind} (hskipped : Skipped mode.skips cs mid)
    (hkind : (front mid).kind ≠ kind) : Answers strict (tryTake kind mode) cs cs (· = none) := by
  refine answers_tryTakeIf_none hskipped fun l hl => ?_
  rw [beq_eq_false_iff_ne, Lexeme.kind_of_token hl]
  exact hkind

theorem answers_take (hskipped : Skipped mode.skips cs mid) (ht : tokens mid = t :: tokens stop) :
    Answers strict (take t.kind mode) cs stop fun l => l.token = t := by
  intro c hc
  have hanswer : Answers True _ _ _ _ := answers_tryTake hskipped ht
  obtain ⟨o, c', hrun, hc', hmarks, l, rfl, hl⟩ := hanswer.of_strict hc
  refine .inl ⟨l, c', ?_, hc', hmarks, hl⟩
  have hpair : c.tryTake t.kind mode = (some l, c') := Except.ok.inj hrun
  unfold take Cursor.take
  rw [hpair]

/-! ## Attempts -/

section

variable {p : Parser (Option α)} {c c' : Cursor}

theorem answers_attempt (h : Answers strict p cs stop fun o => ∃ a, o = some a ∧ P a) :
    Answers strict (attempt p) cs stop fun o => ∃ a, o = some a ∧ P a := by
  intro c hc
  rcases h (show c.mark.AtFront cs from hc) with
    ⟨o, c', hrun, hc', hmarks, a, rfl, ha⟩ | ⟨hstrict, fault, hrun⟩
  · refine .inl ⟨some a, c'.commit, attempt_apply_some hrun, hc', ?_, a, rfl, ha⟩
    unfold Cursor.commit
    rw [hmarks]
    rfl
  · exact .inr ⟨hstrict, fault, attempt_apply_error hrun⟩

theorem answers_attempt_none (h : Answers strict p cs stop (· = none)) :
    Answers strict (attempt p) cs cs (· = none) := by
  intro c hc
  rcases h (show c.mark.AtFront cs from hc) with
    ⟨o, c', hrun, -, hmarks, rfl⟩ | ⟨hstrict, fault, hrun⟩
  · have hback : c'.rollback = c := by
      unfold Cursor.rollback
      rw [hmarks]
      rfl
    refine .inl ⟨none, c, ?_, hc, rfl, rfl⟩
    rw [attempt_apply_none hrun, hback]
  · exact .inr ⟨hstrict, fault, attempt_apply_error hrun⟩

end

/-! ## Repetition -/

/-- The loop answers for each of the things in the list, and then stops; unless it has to be strict,
it may fault at one of them. -/
inductive Runs (strict : Prop) (step : Parser (Option α)) (one : β → α → Prop) :
    List β → List Char → List Char → Prop where
  | stop {cs stop : List Char} :
      Answers strict step cs stop (· = none) → Runs strict step one [] cs stop
  | step {b : β} {bs : List β} {cs mid stop : List Char} :
      Answers strict step cs mid (fun o => ∃ a, o = some a ∧ one b a) →
        Runs strict step one bs mid stop → Runs strict step one (b :: bs) cs stop
  | fault {bs : List β} {cs stop : List Char} :
      ¬ strict → Answers strict step cs stop (fun _ => False) → Runs strict step one bs cs stop

variable {step : Parser (Option α)} {one : β → α → Prop} {bs : List β}

theorem Runs.answers_manyWithin (h : Runs strict step one bs cs stop)
    (hprogress : ∀ l, Takes step l fun o ts _ => o = none ∨ ts ≠ []) (found : List α)
    (rounds : List Lexeme) ⦃c : Cursor⦄ (hc : c.AtFront cs) (hrounds : c.ahead.length ≤ rounds.length) :
    (∃ more c', manyWithin step found rounds c = .ok (found.reverse ++ more, c') ∧
      c'.AtFront stop ∧ c'.checkpoints = c.checkpoints ∧ List.Forall₂ one bs more) ∨
      ¬ strict ∧ ∃ fault, manyWithin step found rounds c = .error fault := by
  -- As many rounds are left as there are lexemes ahead, and each round that answers takes one.
  induction h generalizing found rounds c with
  | stop hstop =>
    cases rounds with
    | nil => exact absurd hrounds (Nat.not_succ_le_zero _)
    | cons x rounds =>
      unfold manyWithin
      rcases hstop hc with ⟨o, c', hrun, hc', hmarks, rfl⟩ | ⟨hstrict, fault, hrun⟩
      · refine .inl ⟨[], c', ?_, hc', hmarks, .nil⟩
        rw [hrun, List.append_nil]
      · exact .inr ⟨hstrict, fault, by rw [hrun]⟩
  | step hstep _ ih =>
    cases rounds with
    | nil => exact absurd hrounds (Nat.not_succ_le_zero _)
    | cons x rounds =>
      unfold manyWithin
      rcases hstep hc with ⟨o, c', hrun, hc', hmarks, a, rfl, ha⟩ | ⟨hstrict, fault, hrun⟩
      · obtain ⟨ts, htook, hts⟩ := hprogress _ hc.closed rfl hrun
        have hpos := List.length_pos_iff.mpr (hts.resolve_left (by simp))
        have hrounds' : c'.ahead.length ≤ rounds.length := by
          rw [htook.ahead, List.length_append, List.length_cons] at hrounds
          omega
        rw [hrun]
        rcases ih (a :: found) rounds hc' hrounds' with
          ⟨more, c'', hrun', hc'', hmarks', hmore⟩ | hfault
        · refine .inl ⟨a :: more, c'', ?_, hc'', hmarks'.trans hmarks, .cons ha hmore⟩
          refine hrun'.trans ?_
          rw [List.reverse_cons, List.append_assoc, List.singleton_append]
        · exact .inr hfault
      · exact .inr ⟨hstrict, fault, by rw [hrun]⟩
  | fault _ hstep =>
    cases rounds with
    | nil => exact absurd hrounds (Nat.not_succ_le_zero _)
    | cons x rounds =>
      unfold manyWithin
      rcases hstep hc with ⟨_, _, _, _, _, hnone⟩ | ⟨hstrict, fault, hrun⟩
      · exact hnone.elim
      · exact .inr ⟨hstrict, fault, by rw [hrun]⟩

theorem Runs.answers (h : Runs strict step one bs cs stop)
    (hprogress : ∀ l, Takes step l fun o ts _ => o = none ∨ ts ≠ []) :
    Answers strict (many step) cs stop fun as => List.Forall₂ one bs as := by
  intro c hc
  exact h.answers_manyWithin hprogress [] c.ahead hc (Nat.le_refl _)

end Parser

end CommandScript
