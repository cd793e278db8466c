import CommandScript.Proofs.Moved
import CommandScript.Proofs.Parser.Pairing

/-!
Parsing the same lexemes elsewhere. One cursor stands in a source, a second one in a source that has
the same lexemes, `k` lines further down. The first source either ends where the second one does, or
it ends where the second one goes on in a new line. A statement that ends there does so with its source
or with the line feed, as the case may be. A fault need be the same only where both sources end: a
source that is read in part is given up by the parser for want of what follows.
-/

namespace CommandScript
set_option autoImplicit false

variable {k : Nat} {behind : Option (List Lexeme)}

/-! ## Lexemes in two sources -/

/-- The lexemes ahead in both sources. The second source goes on with the lexemes `behind` the
end of a line, if there are any; what ends the first source there may have blanks before it. Otherwise
both sources end in the same place, and what stands behind the end in the second one is left open. -/
inductive Alongside (k : Nat) (behind : Option (List Lexeme)) : List Lexeme → List Lexeme → Prop where
  | closed {l : Lexeme} {rest : List Lexeme} : behind = none → l.kind = .endOfFile →
      Ends (l.down k :: rest) → Alongside k behind [l] (l.down k :: rest)
  | seam {blanks rest : List Lexeme} {l feed : Lexeme} : behind = some rest →
      (∀ b ∈ blanks, b.kind = .whitespace) → l.kind = .endOfFile → feed.kind = .newLine →
        Alongside k behind (blanks ++ [l]) (feed :: rest)
  | cons {l : Lexeme} {ls ms : List Lexeme} :
      l.kind ≠ .endOfFile → Alongside k behind ls ms → Alongside k behind (l :: ls) (l.down k :: ms)

/-- The next lexemes of both sources: the same one, or what ends a line in both. -/
inductive Matches (k : Nat) (behind : Option (List Lexeme)) (l m : Lexeme) : Prop where
  | same : m = l.down k → Matches k behind l m
  | seam : behind ≠ none → l.kind = .whitespace ∨ l.kind = .endOfFile → m.kind = .newLine →
      Matches k behind l m

theorem Alongside.head {l m : Lexeme} {ls ms : List Lexeme}
    (h : Alongside k behind (l :: ls) (m :: ms)) : Matches k behind l m := by
  generalize hls : l :: ls = xs at h
  generalize hms : m :: ms = ys at h
  cases h with
  | closed hbehind hend _ =>
    cases hls
    cases hms
    exact .same rfl
  | @seam blanks rest e feed hbehind hblanks hend hfeed =>
    cases hms
    refine .seam (by rw [hbehind]; nofun) ?_ hfeed
    cases blanks with
    | nil =>
      cases hls
      exact .inr hend
    | cons b blanks =>
      cases hls
      exact .inl (hblanks l List.mem_cons_self)
  | cons hkind hrest =>
    cases hls
    cases hms
    exact .same rfl

theorem ends_of_mem_some {rest : List Lexeme} (h : Ends rest) : ∀ ls ∈ some rest, Ends ls := by
  intro ls hls
  exact Option.some.inj hls ▸ h

theorem Alongside.ends_left {ls ms : List Lexeme} (h : Alongside k behind ls ms) : Ends ls := by
  induction h with
  | closed hbehind hend _ => exact ⟨_, rfl, hend⟩
  | seam hbehind hblanks hend hfeed => exact ⟨_, by simp, hend⟩
  | cons hkind hrest ih => exact ih.cons

theorem Alongside.ends_right {ls ms : List Lexeme} (h : Alongside k behind ls ms)
    (hends : ∀ rest ∈ behind, Ends rest) : Ends ms := by
  induction h with
  | closed hbehind hend hrest => exact hrest
  | seam hbehind hblanks hend hfeed => exact (hends _ hbehind).cons
  | cons hkind hrest ih => exact ih.cons

theorem Alongside.ne_nil_left {ls ms : List Lexeme} (h : Alongside k behind ls ms) : ls ≠ [] := by
  cases h <;> simp

theorem Alongside.ne_nil_right {ls ms : List Lexeme} (h : Alongside k behind ls ms) : ms ≠ [] := by
  cases h <;> simp

/-! ## Positions and cursors -/

namespace Position

/-- At the end of a source with blanks before it, skipping leaves such an end ahead. -/
theorem pass_blanks {skips : LexemeKind → Bool} {p : Position} {blanks : List Lexeme} {l : Lexeme}
    (h : p.ahead = blanks ++ [l]) (hblanks : ∀ b ∈ blanks, b.kind = .whitespace)
    (hkind : l.kind = .endOfFile) (hend : skips .endOfFile = false) :
    ∃ left, (p.pass skips).ahead = left ++ [l] ∧ (∀ b ∈ left, b.kind = .whitespace) ∧
      (skips .whitespace → left = []) := by
  induction blanks generalizing p with
  | nil =>
    have hl : p.lexeme = l := (List.cons.inj h).1
    rw [pass_of_not_skips (by rw [hl, hkind, hend])]
    exact ⟨[], h, nofun, fun _ => rfl⟩
  | cons b blanks ih =>
    have hb : p.lexeme = b := (List.cons.inj h).1
    have hblank : b.kind = .whitespace := hblanks b List.mem_cons_self
    have hne : blanks ++ [l] ≠ [] := by simp
    by_cases hskips : skips .whitespace
    · rw [pass_of_skips h hne (hblank ▸ hskips)]
      exact ih (ahead_next h hne) fun x hx => hblanks x (List.mem_cons_of_mem b hx)
    · rw [Bool.not_eq_true] at hskips
      rw [pass_of_not_skips (by rw [hb, hblank, hskips])]
      exact ⟨b :: blanks, h, hblanks, fun h => nomatch hskips.symm.trans h⟩

/-- The positions have the same lexemes ahead. -/
def Beside (k : Nat) (behind : Option (List Lexeme)) (p q : Position) : Prop :=
  Alongside k behind p.ahead q.ahead

variable {p q : Position}

theorem Beside.next (h : p.Beside k behind q) (hblank : p.lexeme.kind ≠ .whitespace)
    (hend : p.lexeme.kind ≠ .endOfFile) : p.next.Beside k behind q.next := by
  unfold Beside at h
  generalize hp : p.ahead = ls at h
  generalize hq : q.ahead = ms at h
  cases h with
  | closed hbehind hkind _ =>
    obtain rfl := (List.cons.inj hp).1
    exact absurd hkind hend
  | @seam blanks rest l feed hbehind hblanks hkind hfeed =>
    cases blanks with
    | nil =>
      obtain rfl := (List.cons.inj hp).1
      exact absurd hkind hend
    | cons b blanks =>
      obtain rfl := (List.cons.inj hp).1
      exact absurd (hblanks _ List.mem_cons_self) hblank
  | cons hkind hrest =>
    unfold Beside
    rwa [ahead_next hp hrest.ne_nil_left, ahead_next hq hrest.ne_nil_right]

/-- Both positions skip the same lexemes, unless the first one comes to the end of a source that goes
on for the other. -/
theorem Beside.pass {skips : LexemeKind → Bool} (h : p.Beside k behind q)
    (hend : skips .endOfFile = false) (hblank : skips .newLine → skips .whitespace)
    (hstop : behind = none ∨ skips .newLine = false ∨ (p.pass skips).lexeme.kind ≠ .endOfFile) :
    (p.pass skips).Beside k behind (q.pass skips) := by
  unfold Beside at h
  generalize hp : p.ahead = ls at h
  generalize hq : q.ahead = ms at h
  induction h generalizing p q with
  | @closed l rest hbehind hkind hrest =>
    have hl : p.lexeme.kind = .endOfFile := (List.cons.inj hp).1 ▸ hkind
    have hm : q.lexeme.kind = .endOfFile := (List.cons.inj hq).1 ▸ hkind
    rw [pass_of_not_skips (hl ▸ hend), pass_of_not_skips (hm ▸ hend)]
    unfold Beside
    rw [hp, hq]
    exact .closed hbehind hkind hrest
  | @seam blanks rest l feed hbehind hblanks hkind hfeed =>
    obtain ⟨left, hleft, hblanks', hnone⟩ := pass_blanks hp hblanks hkind hend
    have hnewLine : skips .newLine = false := by
      rcases hstop with hstop | hstop | hstop
      · exact nomatch hbehind.symm.trans hstop
      · exact hstop
      · refine Bool.eq_false_iff.mpr fun hskips => hstop ?_
        rw [hnone (hblank hskips)] at hleft
        rw [(List.cons.inj hleft).1, hkind]
    have hm : q.lexeme.kind = .newLine := (List.cons.inj hq).1 ▸ hfeed
    have hstay : q.pass skips = q := pass_of_not_skips (by rw [hm, hnewLine])
    unfold Beside
    rw [hstay, hleft, hq]
    exact .seam hbehind hblanks' hkind hfeed
  | @cons l ls ms hkind hrest ih =>
    have hlexeme : p.lexeme = l := (List.cons.inj hp).1
    by_cases hskips : skips l.kind
    · have hpnext := pass_of_skips hp hrest.ne_nil_left hskips
      have hqnext : q.pass skips = q.next.pass skips := pass_of_skips hq hrest.ne_nil_right hskips
      rw [hpnext] at hstop ⊢
      rw [hqnext]
      exact ih hstop (ahead_next hp hrest.ne_nil_left) (ahead_next hq hrest.ne_nil_right)
    · rw [Bool.not_eq_true] at hskips
      have hq' : q.lexeme = l.down k := (List.cons.inj hq).1
      rw [pass_of_not_skips (by rw [hlexeme, hskips])]
      rw [pass_of_not_skips (by rw [hq']; exact hskips)]
      unfold Beside
      rw [hp, hq]
      exact .cons hkind hrest

/-- What is skipped up to the end of the first source is skipped, with the line feed, in the second
one. -/
theorem Beside.skipped {skips : LexemeKind → Bool} {rest : List Lexeme}
    (h : p.Beside k (some rest) q) (hfeed : skips .newLine)
    (hstop : (p.pass skips).lexeme.kind = .endOfFile) :
    ∃ skipped, (∀ x ∈ skipped, skips x.kind) ∧ q.ahead = skipped ++ rest := by
  unfold Beside at h
  generalize hp : p.ahead = ls at h
  generalize hq : q.ahead = ms at h
  induction h generalizing p q with
  | closed hbehind hkind _ => exact nomatch hbehind
  | @seam blanks rest' l feed hbehind hblanks hkind hnewLine =>
    obtain rfl := Option.some.inj hbehind
    refine ⟨[feed], fun x hx => ?_, rfl⟩
    rw [List.mem_singleton.mp hx, hnewLine]
    exact hfeed
  | @cons l ls ms hkind hrest ih =>
    have hlexeme : p.lexeme = l := (List.cons.inj hp).1
    by_cases hskips : skips l.kind
    · rw [pass_of_skips hp hrest.ne_nil_left hskips] at hstop
      obtain ⟨skipped, hall, hms⟩ :=
        ih hstop (ahead_next hp hrest.ne_nil_left) (ahead_next hq hrest.ne_nil_right)
      refine ⟨l.down k :: skipped, List.forall_mem_cons.mpr ⟨hskips, hall⟩, ?_⟩
      rw [hms, List.cons_append]
    · rw [Bool.not_eq_true] at hskips
      rw [pass_of_not_skips (by rw [hlexeme, hskips]), hlexeme] at hstop
      exact absurd hstop hkind

end Position

/-! ## Cursors -/

namespace Cursor

/-- The cursors have the same lexemes ahead, and so they have behind each mark. -/
structure Beside (k : Nat) (behind : Option (List Lexeme)) (c d : Cursor) : Prop where
  position : c.position.Beside k behind d.position
  checkpoints : List.Forall₂ (Position.Beside k behind) c.checkpoints d.checkpoints

variable {c d : Cursor}

namespace Beside

theorem peek (h : c.Beside k behind d) : Matches k behind c.peek d.peek := Alongside.head h.position

theorem closed_left (h : c.Beside k behind d) : c.Closed := Alongside.ends_left h.position

theorem closed_right (h : c.Beside k behind d) (hends : ∀ rest ∈ behind, Ends rest) : d.Closed :=
  Alongside.ends_right h.position hends

theorem advance (h : c.Beside k behind d) (hblank : c.peek.kind ≠ .whitespace)
    (hend : c.peek.kind ≠ .endOfFile) : c.advance.Beside k behind d.advance :=
  ⟨h.position.next hblank hend, h.checkpoints⟩

theorem skipWhile {skips : LexemeKind → Bool} (h : c.Beside k behind d)
    (hend : skips .endOfFile = false) (hblank : skips .newLine → skips .whitespace)
    (hstop : behind = none ∨ skips .newLine = false ∨ (c.skipWhile skips).peek.kind ≠ .endOfFile) :
    (c.skipWhile skips).Beside k behind (d.skipWhile skips) :=
  ⟨h.position.pass hend hblank hstop, h.checkpoints⟩

theorem inStep_iff : c.InStep (Position.Beside k behind) d ↔ c.Beside k behind d :=
  ⟨fun h => ⟨h.position, h.checkpoints⟩, fun h => ⟨h.position, h.checkpoints⟩⟩

/-- Whether a search ends in the part of the first source that the second one has as well: it does if
both end there, if it does not leave the line, or if it finds more than the end. -/
def Stays (behind : Option (List Lexeme)) (mode : Skip) (c : Cursor) : Prop :=
  behind = none ∨ mode ≠ .layout ∨ (c.peekPast mode).kind ≠ .endOfFile

theorem skip {mode : Skip} (h : c.Beside k behind d) (hstays : Stays behind mode c) :
    (c.skipWhile mode.skips).Beside k behind (d.skipWhile mode.skips) := by
  refine h.skipWhile (by cases mode <;> rfl) (by cases mode <;> decide) ?_
  rcases hstays with hbehind | hmode | hfound
  · exact .inl hbehind
  · refine .inr (.inl ?_)
    cases mode with
    | nothing | whitespace => rfl
    | layout => exact absurd rfl hmode
  · exact .inr (.inr hfound)

end Beside

end Cursor

/-! ## The ends of statements -/

namespace Parser

open Cursor (Beside)
open Cursor.Beside (Stays inStep_iff)

/-- The first source has ended, and the second one goes on behind the line feed. -/
def Crossed (k : Nat) (behind : Option (List Lexeme)) (c d : Cursor) : Prop :=
  ∃ l, c.ahead = [l] ∧ l.kind = .endOfFile ∧ behind = some d.ahead ∧
    List.Forall₂ (Position.Beside k behind) c.checkpoints d.checkpoints

/-- How the cursors stand behind a statement. -/
def Past (k : Nat) (behind : Option (List Lexeme)) (c d : Cursor) : Prop :=
  Beside k behind c d ∨ Crossed k behind c d

variable {c d : Cursor}

theorem Past.closed (hends : ∀ rest ∈ behind, Ends rest) (h : Past k behind c d) :
    c.Closed ∧ d.Closed := by
  rcases h with h | ⟨l, hc, hl, hbehind, -⟩
  · exact ⟨h.closed_left, h.closed_right hends⟩
  · refine ⟨⟨l, ?_, hl⟩, hends _ hbehind⟩
    rw [hc]
    rfl

/-- Where the first source ends, the second cursor is on the line feed, and steps over it. -/
theorem crossed_advance (hends : ∀ rest ∈ behind, Ends rest) (h : Beside k behind c d)
    (hc : c.peek.kind = .endOfFile) (hsome : behind ≠ none) : Crossed k behind c d.advance := by
  have halong : Alongside k behind c.position.ahead d.position.ahead := h.position
  generalize hls : c.position.ahead = ls at halong
  generalize hms : d.position.ahead = ms at halong
  cases halong with
  | closed hbehind hl _ => exact absurd hbehind hsome
  | @seam blanks rest l feed hbehind hblanks hl hfeed =>
    cases blanks with
    | nil =>
      have hahead : d.advance.ahead = rest := Position.ahead_next hms (hends _ hbehind).ne_nil
      exact ⟨l, hls, hl, hahead.symm ▸ hbehind, h.checkpoints⟩
    | cons b blanks =>
      have hkind : c.peek.kind = b.kind := congrArg Lexeme.kind (List.cons.inj hls).1
      rw [hkind, hblanks b List.mem_cons_self] at hc
      exact nomatch hc
  | @cons l ls ms hkind hrest =>
    have hl : c.peek.kind = l.kind := congrArg Lexeme.kind (List.cons.inj hls).1
    exact absurd (hl ▸ hc) hkind

theorem peek_of_crossed (h : Crossed k behind c d) (skips : LexemeKind → Bool)
    (hend : skips .endOfFile = false) :
    behind ≠ none ∧ (c.skipWhile skips).peek.kind = .endOfFile := by
  obtain ⟨l, hc, hl, hbehind, -⟩ := h
  refine ⟨by rw [hbehind]; nofun, ?_⟩
  have hpeek : c.position.lexeme = l := (List.cons.inj hc).1
  have hstay : c.position.pass skips = c.position :=
    Position.pass_of_not_skips (by rw [hpeek, hl, hend])
  change (c.position.pass skips).lexeme.kind = _
  rw [hstay, hpeek, hl]

/-- The faults are the same in another place. -/
def FaultDown (k : Nat) (e e' : ParseError) : Prop := e' = e.down k

theorem agree_terminator (hends : ∀ rest ∈ behind, Ends rest) (h : Beside k behind c d) :
    Agree (behind = none) (FaultDown k) id (Past k behind) (terminator c) (terminator d) := by
  have hskip : Beside k behind (c.skipWhile Skip.whitespace.skips)
      (d.skipWhile Skip.whitespace.skips) := h.skip (.inr (.inl (by decide)))
  rw [terminator_apply, terminator_apply]
  generalize c.skipWhile Skip.whitespace.skips = c at hskip ⊢
  generalize d.skipWhile Skip.whitespace.skips = d at hskip ⊢
  dsimp only
  cases hskip.peek with
  | seam hsome hl hm =>
    rcases hl with hl | hl
    · rw [hl]
      exact fun hbehind => absurd hbehind hsome
    · rw [hl, hm]
      exact ⟨d.advance, rfl, .inr (crossed_advance hends hskip hl hsome)⟩
  | same h =>
    rw [h, Lexeme.kind_down]
    cases hl : c.peek.kind with
    | semicolon | newLine | comment =>
      exact ⟨d.advance, rfl, .inl (hskip.advance (by rw [hl]; decide) (by rw [hl]; decide))⟩
    | endOfFile | rightBrace => exact ⟨d, rfl, .inl hskip⟩
    | _ => exact fun _ => ⟨_, rfl, rfl⟩

/-- Behind a statement both sources come to the same lexeme, unless the first one ends and the second
one goes on. -/
theorem beside_separators (h : Past k behind c d) :
    Beside k behind (c.skipWhile LexemeKind.isSeparator) (d.skipWhile LexemeKind.isSeparator) ∧
        (d.skipWhile LexemeKind.isSeparator).peek =
          (c.skipWhile LexemeKind.isSeparator).peek.down k ∨
      behind ≠ none ∧ (c.skipWhile LexemeKind.isSeparator).peek.kind = .endOfFile := by
  rcases h with h | h
  · by_cases hstop : behind = none ∨ (c.skipWhile LexemeKind.isSeparator).peek.kind ≠ .endOfFile
    · have hskip := h.skipWhile rfl (fun _ => rfl) (hstop.imp_right .inr)
      refine .inl ⟨hskip, ?_⟩
      cases hskip.peek with
      | same hsame => exact hsame
      | seam hsome hl hm =>
        have hblank : (c.skipWhile LexemeKind.isSeparator).peek.kind.isSeparator = false :=
          Cursor.skips_peek_skipWhile rfl h.closed_left
        rcases hl with hl | hl
        · rw [hl] at hblank
          exact nomatch hblank
        · exact absurd hl (hstop.resolve_left hsome)
    · rw [not_or, not_not] at hstop
      exact .inr hstop
  · exact .inr (peek_of_crossed h LexemeKind.isSeparator rfl)

/-! ## The pairing -/

/-- A source and the same source `k` lines further down. -/
def alongside (k : Nat) (behind : Option (List Lexeme)) (hends : ∀ rest ∈ behind, Ends rest) :
    Pairing where
  same l m := m = l.down k
  beside := Beside k behind
  past := Past k behind
  strict := behind = none
  alike := FaultDown k
  moved := Statement.down k
  kind_eq h := by rw [h]; rfl
  content_eq h _ := by rw [h]; rfl
  unquote_eq h _ := by rw [h]; rfl
  fault _ h := by rw [h]; rfl
  moved_command _ _ h _ := by rw [h]; rfl
  moved_expression _ h _ := by rw [h]; rfl
  moved_declaration _ _ _ h _ := by rw [h, Statement.down, Statement.downAll_eq]; rfl
  peek h := by
    cases h.peek with
    | same h => exact .inl h
    | seam hsome hl hm =>
      refine .inr ⟨hsome, ?_, by rw [hm]; rfl⟩
      rcases hl with hl | hl <;> rw [hl] <;> rfl
  advance h _ hidle :=
    h.advance (fun hl => nomatch hl ▸ hidle) fun hl => nomatch hl ▸ hidle
  skip h := h.skip (.inr (.inl (by decide)))
  search {c d} h := by
    by_cases hstays : Stays behind .layout c
    · exact .inl (h.skip hstays)
    · unfold Stays at hstays
      rw [not_or, not_or, not_not, not_not] at hstays
      exact .inr ⟨hstays.1, by rw [hstays.2.2]; rfl⟩
  mark h := inStep_iff.mp (inStep_iff.mpr h).mark
  commit h := inStep_iff.mp (inStep_iff.mpr h).commit
  rollback h := inStep_iff.mp (inStep_iff.mpr h).rollback
  past_of_beside := .inl
  closed h := h.closed hends
  terminator h := agree_terminator hends h
  separators h := beside_separators h

end Parser

end CommandScript
