import Mathlib.Data.List.Forall2
import CommandScript.Parser.Statement
import CommandScript.Proofs.Parser.Takes

/-!
Parsing two sources in step. Each of two cursors stands in a source of its own, and a parser runs on
both. A `Pairing` says which lexemes of the sources are the same to a parser and how the cursors may
stand to each other; its laws are what the moves of a cursor keep of that. `Follows` says that a parser
does on the second cursor what one does on the first, with one rule for each way to make parsers. A fault
on the first cursor binds the second one only if the pairing is strict: else the first source may be
given up where the second one goes on.
-/

namespace CommandScript
set_option autoImplicit false

/-! ## Lexemes and positions -/

/-- Layout, comments and the end: where a parser finds nothing of what it looks for. -/
def LexemeKind.isIdle : LexemeKind → Bool
  | whitespace | newLine | comment | endOfFile => true
  | _ => false

/-- The last of the lexemes is the end of a source. -/
def Ends (ls : List Lexeme) : Prop := ∃ last, ls.getLast? = some last ∧ last.kind = .endOfFile

theorem Ends.cons {l : Lexeme} {ls : List Lexeme} (h : Ends ls) : Ends (l :: ls) := by
  obtain ⟨last, hlast, hend⟩ := h
  exact ⟨last, by simp [List.getLast?_cons, hlast], hend⟩

theorem Ends.append {ls : List Lexeme} (h : Ends ls) (before : List Lexeme) : Ends (before ++ ls) := by
  induction before with
  | nil => exact h
  | cons l before ih => exact ih.cons

theorem Ends.ne_nil {ls : List Lexeme} (h : Ends ls) : ls ≠ [] := by
  rintro rfl
  obtain ⟨last, hlast, -⟩ := h
  exact nomatch hlast

namespace Position

def ahead (p : Position) : List Lexeme := p.lexeme :: p.rest

theorem ahead_next {p : Position} {l : Lexeme} {ls : List Lexeme} (h : p.ahead = l :: ls)
    (hls : ls ≠ []) : p.next.ahead = ls := by
  obtain ⟨i, x, xs⟩ := p
  cases h
  cases xs with
  | nil => exact absurd rfl hls
  | cons y ys => rfl

theorem pass_of_skips {skips : LexemeKind → Bool} {p : Position} {l : Lexeme} {ls : List Lexeme}
    (h : p.ahead = l :: ls) (hls : ls ≠ []) (hskips : skips l.kind) :
    p.pass skips = p.next.pass skips := by
  obtain ⟨i, x, xs⟩ := p
  cases h
  cases xs with
  | nil => exact absurd rfl hls
  | cons y ys =>
    unfold pass
    rw [passFrom, if_pos hskips]
    rfl

theorem pass_of_not_skips {skips : LexemeKind → Bool} {p : Position}
    (hskips : skips p.lexeme.kind = false) : p.pass skips = p := by
  obtain ⟨i, x, xs⟩ := p
  cases xs with
  | nil => rfl
  | cons y ys =>
    unfold pass
    rw [passFrom, if_neg (Bool.not_eq_true _ ▸ hskips)]

/-- Skipping over lexemes that are all skipped is skipping from behind them. -/
theorem exists_pass_eq {skips : LexemeKind → Bool} {q : Position} {skipped rest : List Lexeme}
    (h : q.ahead = skipped ++ rest) (hall : ∀ x ∈ skipped, skips x.kind) (hrest : rest ≠ []) :
    ∃ q' : Position, q'.ahead = rest ∧ q.pass skips = q'.pass skips := by
  induction skipped generalizing q with
  | nil => exact ⟨q, h, rfl⟩
  | cons x skipped ih =>
    obtain ⟨hx, hall⟩ := List.forall_mem_cons.mp hall
    have hne : skipped ++ rest ≠ [] := List.append_ne_nil_of_right_ne_nil _ hrest
    obtain ⟨q', hahead, hpass⟩ := ih (ahead_next h hne) hall
    exact ⟨q', hahead, (pass_of_skips h hne hx).trans hpass⟩

end Position

/-! ## Cursors -/

namespace Cursor

theorem ahead_ofLexemes_of_ends {ls : List Lexeme} (h : Ends ls) : (ofLexemes ls).ahead = ls := by
  cases ls with
  | nil => exact absurd rfl h.ne_nil
  | cons l ls => rfl

@[simp] theorem checkpoints_ofLexemes (ls : List Lexeme) : (ofLexemes ls).checkpoints = [] := by
  cases ls <;> rfl

end Cursor

/-- The positions and the marks of the cursors are related. -/
structure Cursor.InStep (R : Position → Position → Prop) (c d : Cursor) : Prop where
  position : R c.position d.position
  checkpoints : List.Forall₂ R c.checkpoints d.checkpoints

namespace Cursor.InStep

variable {R : Position → Position → Prop} {c d : Cursor}

theorem mark (h : c.InStep R d) : c.mark.InStep R d.mark :=
  ⟨h.position, .cons h.position h.checkpoints⟩

theorem commit (h : c.InStep R d) : c.commit.InStep R d.commit := by
  obtain ⟨position, checkpoints⟩ := c
  obtain ⟨position', checkpoints'⟩ := d
  refine ⟨h.position, ?_⟩
  cases h.checkpoints with
  | nil => exact .nil
  | cons _ hrest => exact hrest

theorem rollback (h : c.InStep R d) : c.rollback.InStep R d.rollback := by
  obtain ⟨position, checkpoints⟩ := c
  obtain ⟨position', checkpoints'⟩ := d
  cases h.checkpoints with
  | nil => exact h
  | cons hmark hrest => exact ⟨hmark, hrest⟩

/-- Cursors on the first lexemes of two sources. -/
theorem ofLexemes {R : List Lexeme → List Lexeme → Prop} {ls ms : List Lexeme} (hls : Ends ls)
    (hms : Ends ms) (h : R ls ms) :
    (Cursor.ofLexemes ls).InStep (fun p q => R p.ahead q.ahead) (Cursor.ofLexemes ms) := by
  refine ⟨?_, ?_⟩
  · change R (Cursor.ofLexemes ls).ahead (Cursor.ofLexemes ms).ahead
    rwa [ahead_ofLexemes_of_ends hls, ahead_ofLexemes_of_ends hms]
  · rw [checkpoints_ofLexemes, checkpoints_ofLexemes]
    exact .nil

end Cursor.InStep

namespace Parser

variable {α α' β β' : Type}

/-- Takes a lexeme that must be there. -/
def need (wanted : Lexeme → Bool) (fault : SyntaxFault) (mode : Skip) : Parser Lexeme := do
  let found ← peekPast mode
  match ← tryTakeIf wanted mode with
  | some l => pure l
  | none => fail fault found

theorem take_eq (kind : LexemeKind) (mode : Skip) :
    take kind mode = need (fun l => l.kind == kind) (.expected kind) mode := by
  funext c
  unfold take Cursor.take Cursor.tryTake need
  rw [bind_apply]
  dsimp only [peekPast]
  rw [bind_apply]
  dsimp only [tryTakeIf]
  rcases c.tryTakeIf (fun l => l.kind == kind) mode with ⟨_ | l, c'⟩ <;> rfl

section

variable {wanted : Lexeme → Bool} {mode : Skip} {c : Cursor}

/-- What is not wanted is not taken. -/
theorem tryTakeIf_of_not (h : wanted (c.peekPast mode) = false) :
    tryTakeIf wanted mode c = .ok (none, c) := by
  unfold tryTakeIf
  rw [Cursor.tryTakeIf_eq, h]
  rfl

theorem need_of_not (fault : SyntaxFault) (h : wanted (c.peekPast mode) = false) :
    need wanted fault mode c = .error (.ofLexeme fault (c.peekPast mode)) := by
  unfold need
  rw [bind_apply]
  dsimp only [peekPast]
  rw [bind_apply, tryTakeIf_of_not h]
  rfl

theorem bind_of_error {p : Parser α} {f : α → Parser β} {e : ParseError} (h : p c = .error e) :
    (p >>= f) c = .error e := by
  rw [bind_apply, h]

theorem beq_kind_of_idle {kind : LexemeKind} {l : Lexeme} (hkind : kind.isIdle = false)
    (hl : l.kind.isIdle) : (l.kind == kind) = false := by
  refine beq_false_of_ne fun heq => ?_
  rw [heq, hkind] at hl
  exact nomatch hl

end

/-- A statement ends with the next lexeme but blanks, or before it. -/
theorem terminator_apply (c : Cursor) :
    terminator c =
      let here := c.skipWhile Skip.whitespace.skips
      match here.peek.kind with
      | .semicolon | .newLine | .comment => .ok ((), here.advance)
      | .endOfFile | .rightBrace => .ok ((), here)
      | _ => .error (.ofLexeme .missingTerminator here.peek) := by
  unfold terminator
  rw [bind_apply]
  dsimp only [skip]
  rw [bind_apply]
  dsimp only [peek]
  generalize c.skipWhile Skip.whitespace.skips = here
  cases here.peek.kind <;> rfl

/-! ## Pairings -/

/-- The second outcome is as the first one: the answer is what `answer` makes of it, and the cursors are
as `post` says. A fault has its like only if that is asked. -/
def Agree (strict : Prop) (alike : ParseError → ParseError → Prop) (answer : α → α')
    (post : Cursor → Cursor → Prop) :
    Except ParseError (α × Cursor) → Except ParseError (α' × Cursor) → Prop
  | .ok (a, c), r => ∃ d, r = .ok (answer a, d) ∧ post c d
  | .error e, r => strict → ∃ e', r = .error e' ∧ alike e e'

/-- The second outcome of a step is as the first one, with the cursors as `again` says where there is an
answer and as `done` says where there is none. -/
def AgreeStep (strict : Prop) (alike : ParseError → ParseError → Prop) (answer : α → α')
    (again done : Cursor → Cursor → Prop) :
    Except ParseError (Option α × Cursor) → Except ParseError (Option α' × Cursor) → Prop
  | .ok (some a, c), r => ∃ d, r = .ok (some (answer a), d) ∧ again c d
  | .ok (none, c), r => ∃ d, r = .ok (none, d) ∧ done c d
  | .error e, r => strict → ∃ e', r = .error e' ∧ alike e e'

theorem Agree.step {strict : Prop} {alike : ParseError → ParseError → Prop} {answer : α → α'}
    {post : Cursor → Cursor → Prop} {r : Except ParseError (Option α × Cursor)}
    {r' : Except ParseError (Option α' × Cursor)}
    (h : Agree strict alike (Option.map answer) post r r') :
    AgreeStep strict alike answer post post r r' := by
  rcases r with e | ⟨_ | a, c⟩
  · exact h
  · exact h
  · exact h

/-- Two sources that are parsed in step. `beside` is how the cursors stand inside a statement and `past`
how they stand behind one; where the lexemes on which they stand are not the same, both are idle. -/
structure Pairing where
  same : Lexeme → Lexeme → Prop
  beside : Cursor → Cursor → Prop
  past : Cursor → Cursor → Prop
  strict : Prop
  alike : ParseError → ParseError → Prop
  moved : Statement → Statement
  kind_eq {l m : Lexeme} : same l m → m.kind = l.kind
  content_eq {l m : Lexeme} : same l m → l.kind = .word ∨ l.kind = .keyword → m.content = l.content
  unquote_eq {l m : Lexeme} : same l m → l.kind = .quotedString →
    Text.unquote? m.content = Text.unquote? l.content
  fault {l m : Lexeme} (fault : SyntaxFault) : same l m →
    alike (.ofLexeme fault l) (.ofLexeme fault m)
  moved_command {l m : Lexeme} (name : String) (args : List Expr) : same l m → l.kind.isIdle = false →
    moved (.command l.start name args) = .command m.start name args
  moved_expression {l m : Lexeme} (e : Expr) : same l m → l.kind.isIdle = false →
    moved (.expression l.start e) = .expression m.start e
  moved_declaration {l m : Lexeme} (name : String) (params : List Parameter) (ss : List Statement) :
    same l m → l.kind.isIdle = false →
      moved (.declaration l.start name params ss) = .declaration m.start name params (ss.map moved)
  peek {c d : Cursor} : beside c d →
    same c.peek d.peek ∨ ¬strict ∧ c.peek.kind.isIdle ∧ d.peek.kind.isIdle
  advance {c d : Cursor} : beside c d → same c.peek d.peek → c.peek.kind.isIdle = false →
    beside c.advance d.advance
  skip {c d : Cursor} : beside c d →
    beside (c.skipWhile Skip.whitespace.skips) (d.skipWhile Skip.whitespace.skips)
  search {c d : Cursor} : beside c d →
    beside (c.skipWhile Skip.layout.skips) (d.skipWhile Skip.layout.skips) ∨
      ¬strict ∧ (c.peekPast .layout).kind.isIdle
  mark {c d : Cursor} : beside c d → beside c.mark d.mark
  commit {c d : Cursor} : beside c d → beside c.commit d.commit
  rollback {c d : Cursor} : beside c d → beside c.rollback d.rollback
  past_of_beside {c d : Cursor} : beside c d → past c d
  closed {c d : Cursor} : past c d → c.Closed ∧ d.Closed
  terminator {c d : Cursor} : beside c d →
    Agree strict alike id past (Parser.terminator c) (Parser.terminator d)
  separators {c d : Cursor} : past c d →
    beside (c.skipWhile LexemeKind.isSeparator) (d.skipWhile LexemeKind.isSeparator) ∧
        same (c.skipWhile LexemeKind.isSeparator).peek (d.skipWhile LexemeKind.isSeparator).peek ∨
      ¬strict ∧ (c.skipWhile LexemeKind.isSeparator).peek.kind = .endOfFile

namespace Pairing

section

variable (P : Pairing)

/-- On cursors as `pre` says, the parser `q` does what `p` does, which leaves them as `post` says. -/
def Follows (pre : Cursor → Cursor → Prop) (answer : α → α') (p : Parser α) (q : Parser α')
    (post : Cursor → Cursor → Prop) : Prop :=
  ∀ c d, pre c d → Agree P.strict P.alike answer post (p c) (q d)

abbrev Tracks (answer : α → α') (p : Parser α) (q : Parser α') : Prop :=
  P.Follows P.beside answer p q P.beside

/-- The cursors stand beside each other on these lexemes. -/
structure At (l m : Lexeme) (c d : Cursor) : Prop where
  beside : P.beside c d
  left : c.peek = l
  right : d.peek = m

/-- The next lexemes of both sources. -/
def Meets (l m : Lexeme) : Prop := P.same l m ∨ ¬P.strict ∧ l.kind.isIdle ∧ m.kind.isIdle

end

end Pairing

variable {P : Pairing} {answer : α → α'} {answer' : β → β'} {p : Parser α} {q : Parser α'}
  {f : α → Parser β} {g : α' → Parser β'} {pre mid post : Cursor → Cursor → Prop} {l m : Lexeme}

namespace Pairing.Meets

theorem same_of_strict (h : P.Meets l m) (hstrict : P.strict) : P.same l m :=
  h.resolve_right fun hidle => hidle.1 hstrict

theorem same_of_left (h : P.Meets l m) (hl : l.kind.isIdle = false) : P.same l m :=
  h.resolve_right fun hidle => nomatch hidle.2.1.symm.trans hl

end Pairing.Meets

/-! ## Outcomes -/

theorem agree_bind {c d : Cursor} (h : Agree P.strict P.alike answer mid (p c) (q d))
    (hnext : ∀ a c' d', p c = .ok (a, c') → mid c' d' →
      Agree P.strict P.alike answer' post (f a c') (g (answer a) d')) :
    Agree P.strict P.alike answer' post ((p >>= f) c) ((q >>= g) d) := by
  rw [bind_apply, bind_apply]
  rcases hr : p c with e | ⟨a, c'⟩
  · rw [hr] at h
    intro hstrict
    obtain ⟨e', hd, halike⟩ := h hstrict
    exact ⟨e', by rw [hd], halike⟩
  · rw [hr] at h
    obtain ⟨d', hd, hmid⟩ := h
    rw [hd]
    exact hnext a c' d' hr hmid

theorem tracks_bind (h : P.Follows pre answer p q mid)
    (hnext : ∀ a, P.Follows mid answer' (f a) (g (answer a)) post) :
    P.Follows pre answer' (p >>= f) (q >>= g) post := by
  intro c d hcd
  apply agree_bind (h c d hcd)
  intro a c' d' _ hmid
  exact hnext a c' d' hmid

/-- A step that always answers. -/
theorem agreeStep_some {done : Cursor → Cursor → Prop} {c d : Cursor}
    (h : Agree P.strict P.alike answer post (p c) (q d)) :
    AgreeStep P.strict P.alike answer post done ((some <$> p) c) ((some <$> q) d) := by
  rw [map_eq_pure_bind, map_eq_pure_bind, bind_apply, bind_apply]
  rcases hr : p c with e | ⟨a, c'⟩
  · rw [hr] at h
    intro hstrict
    obtain ⟨e', hd, halike⟩ := h hstrict
    exact ⟨e', by rw [hd], halike⟩
  · rw [hr] at h
    obtain ⟨d', hd, hpost⟩ := h
    exact ⟨d', by rw [hd]; rfl, hpost⟩

theorem tracks_pure {a : α} {b : α'} (h : b = answer a) :
    P.Follows pre answer (pure a) (pure b) pre := by
  intro c d hcd
  exact ⟨d, congrArg (fun x => Except.ok (x, d)) h, hcd⟩

theorem Pairing.Follows.imp {pre' post' : Cursor → Cursor → Prop} (h : P.Follows pre answer p q post)
    (hpre : ∀ c d, pre' c d → pre c d) (hpost : ∀ c d, post c d → post' c d) :
    P.Follows pre' answer p q post' := by
  intro c d hcd
  have hagree := h c d (hpre c d hcd)
  rcases hr : p c with e | ⟨a, c'⟩
  · rw [hr] at hagree
    exact hagree
  · rw [hr] at hagree
    obtain ⟨d', hd, hcd'⟩ := hagree
    exact ⟨d', hd, hpost c' d' hcd'⟩

theorem tracks_map {h : α → β} {h' : α' → β'} (hp : P.Follows pre answer p q post)
    (hmap : ∀ a, h' (answer a) = answer' (h a)) :
    P.Follows pre answer' (h <$> p) (h' <$> q) post := by
  rw [map_eq_pure_bind, map_eq_pure_bind]
  exact tracks_bind hp fun a => tracks_pure (hmap a)

theorem tracks_fail (fault : SyntaxFault) (h : P.strict → P.same l m) :
    P.Follows pre answer (fail fault l) (fail fault m) post :=
  fun _ _ _ hstrict => ⟨_, rfl, P.fault fault (h hstrict)⟩

/-- A fault on the first cursor does not bind the second one if the pairing is not strict. -/
theorem tracks_of_error {c d : Cursor} {e : ParseError} (hc : p c = .error e) (h : ¬P.strict) :
    Agree P.strict P.alike answer post (p c) (q d) := by
  rw [hc]
  exact fun hstrict => absurd hstrict h

/-! ## Moves -/

theorem Pairing.Follows.at (h : P.Follows P.beside answer p q post) (l m : Lexeme) :
    P.Follows (P.At l m) answer p q post :=
  fun c d hcd => h c d hcd.beside

/-- A parser that stays where it is keeps the cursors beside each other. -/
theorem tracks_pure_at {a : α} {b : α'} (h : b = answer a) :
    P.Follows (P.At l m) answer (pure a) (pure b) P.beside :=
  (tracks_pure h).imp (fun _ _ hcd => hcd) fun _ _ hcd => hcd.beside

theorem tracks_peek_bind_at {f : Lexeme → Parser β} {g : Lexeme → Parser β'}
    (h : P.Follows (P.At l m) answer' (f l) (g m) post) :
    P.Follows (P.At l m) answer' (peek >>= f) (peek >>= g) post := by
  rintro c d ⟨hcd, rfl, rfl⟩
  exact h c d ⟨hcd, rfl, rfl⟩

theorem tracks_peek_bind {f : Lexeme → Parser β} {g : Lexeme → Parser β'}
    (h : ∀ l m, P.Meets l m → P.Follows (P.At l m) answer' (f l) (g m) post) :
    P.Follows P.beside answer' (peek >>= f) (peek >>= g) post :=
  fun c d hcd => h c.peek d.peek (P.peek hcd) c d ⟨hcd, rfl, rfl⟩

theorem tracks_advance_bind {f : Lexeme → Parser β} {g : Lexeme → Parser β'} (hsame : P.same l m)
    (hidle : l.kind.isIdle = false) (h : P.Follows P.beside answer' (f l) (g m) post) :
    P.Follows (P.At l m) answer' (advance >>= f) (advance >>= g) post := by
  rintro c d ⟨hcd, rfl, rfl⟩
  exact h _ _ (P.advance hcd hsame hidle)

theorem tracks_skip : P.Tracks id (skip .whitespace) (skip .whitespace) :=
  fun _ _ hcd => ⟨_, rfl, P.skip hcd⟩

/-! ## Taking lexemes -/

/-- What is wanted is wanted in both sources, and it is not idle. -/
structure Pairing.Picks (P : Pairing) (wanted : Lexeme → Bool) : Prop where
  same : ∀ {l m}, P.same l m → wanted m = wanted l
  idle : ∀ {l}, wanted l → l.kind.isIdle = false

theorem picks_kind {kind : LexemeKind} (hidle : kind.isIdle = false) :
    P.Picks fun l => l.kind == kind := by
  refine ⟨fun h => ?_, fun hl => ?_⟩
  · rw [P.kind_eq h]
  · rw [beq_iff_eq.mp hl]
    exact hidle

section

variable {wanted : Lexeme → Bool} {kind : LexemeKind} {mode : Skip}

theorem Pairing.Picks.eq_false (hpicks : P.Picks wanted) (h : l.kind.isIdle) : wanted l = false :=
  Bool.eq_false_iff.mpr fun hwanted => nomatch h.symm.trans (hpicks.idle hwanted)

/-- The next lexeme is wanted in both sources or in none. -/
theorem Pairing.Picks.wanted_eq (hpicks : P.Picks wanted) (h : P.Meets l m) : wanted m = wanted l := by
  rcases h with h | ⟨-, hl, hm⟩
  · exact hpicks.same h
  · rw [hpicks.eq_false hl, hpicks.eq_false hm]

variable {c d : Cursor}

theorem beside_skip (h : P.beside c d) (hmode : mode ≠ .layout) :
    P.beside (c.skipWhile mode.skips) (d.skipWhile mode.skips) := by
  cases mode with
  | nothing =>
    have hstay (c : Cursor) : c.skipWhile Skip.nothing.skips = c := Cursor.skipWhile_of_not rfl
    rw [hstay, hstay]
    exact h
  | whitespace => exact P.skip h
  | layout => exact absurd rfl hmode

theorem beside_or_idle (h : P.beside c d) (mode : Skip) :
    P.beside (c.skipWhile mode.skips) (d.skipWhile mode.skips) ∨
      ¬P.strict ∧ (c.peekPast mode).kind.isIdle := by
  by_cases hmode : mode = .layout
  · subst hmode
    exact P.search h
  · exact .inl (beside_skip h hmode)

theorem agree_tryTakeIf (hpicks : P.Picks wanted) {f : Option Lexeme → Parser β}
    {g : Option Lexeme → Parser β'} (h : P.beside c d)
    (hskip : P.beside (c.skipWhile mode.skips) (d.skipWhile mode.skips))
    (hnone : P.Follows P.beside answer' (f none) (g none) post)
    (hsome : ∀ l m, P.same l m → wanted l →
      P.Follows P.beside answer' (f (some l)) (g (some m)) post) :
    Agree P.strict P.alike answer' post ((tryTakeIf wanted mode >>= f) c)
      ((tryTakeIf wanted mode >>= g) d) := by
  have hmeets : P.Meets (c.peekPast mode) (d.peekPast mode) := P.peek hskip
  have hc : tryTakeIf wanted mode c = .ok (c.tryTakeIf wanted mode) := rfl
  have hd : tryTakeIf wanted mode d = .ok (d.tryTakeIf wanted mode) := rfl
  rw [bind_apply, bind_apply, hc, hd, Cursor.tryTakeIf_eq, Cursor.tryTakeIf_eq,
    hpicks.wanted_eq hmeets]
  by_cases hwanted : wanted (c.peekPast mode)
  · rw [if_pos hwanted, if_pos hwanted]
    have hidle := hpicks.idle hwanted
    have hsame := hmeets.same_of_left hidle
    exact hsome _ _ hsame hwanted _ _ (P.advance hskip hsame hidle)
  · rw [if_neg hwanted, if_neg hwanted]
    exact hnone c d h

theorem tracks_tryTakeIf_bind (hpicks : P.Picks wanted) (hmode : mode ≠ .layout)
    {f : Option Lexeme → Parser β} {g : Option Lexeme → Parser β'}
    (hnone : P.Follows P.beside answer' (f none) (g none) post)
    (hsome : ∀ l m, P.same l m → wanted l →
      P.Follows P.beside answer' (f (some l)) (g (some m)) post) :
    P.Follows P.beside answer' (tryTakeIf wanted mode >>= f) (tryTakeIf wanted mode >>= g) post :=
  fun _ _ h => agree_tryTakeIf hpicks h (beside_skip h hmode) hnone hsome

/-- What must be there is taken in both sources, or it is missing in the first one. -/
theorem tracks_need_bind (hpicks : P.Picks wanted) (fault : SyntaxFault) (mode : Skip)
    {f : Lexeme → Parser β} {g : Lexeme → Parser β'}
    (h : ∀ l m, P.same l m → wanted l → P.Follows P.beside answer' (f l) (g m) post) :
    P.Follows P.beside answer' (need wanted fault mode >>= f) (need wanted fault mode >>= g)
      post := by
  intro c d hcd
  rcases beside_or_idle hcd mode with hskip | ⟨hstrict, hidle⟩
  · have hmeets : P.Meets (c.peekPast mode) (d.peekPast mode) := P.peek hskip
    unfold need
    simp only [bind_assoc]
    rw [bind_apply, bind_apply]
    dsimp only [peekPast]
    refine agree_tryTakeIf hpicks hcd hskip ?_ ?_
    · have hfail : P.Follows P.beside answer' (fail fault (c.peekPast mode) : Parser β)
          (fail fault (d.peekPast mode) : Parser β') post :=
        tracks_fail fault hmeets.same_of_strict
      exact hfail
    · exact h
  · exact tracks_of_error (bind_of_error (need_of_not fault (hpicks.eq_false hidle))) hstrict

theorem tracks_take_bind (hidle : kind.isIdle = false) (mode : Skip) {f : Lexeme → Parser β}
    {g : Lexeme → Parser β'}
    (h : ∀ l m, P.same l m → P.Follows P.beside answer' (f l) (g m) post) :
    P.Follows P.beside answer' (take kind mode >>= f) (take kind mode >>= g) post := by
  rw [take_eq]
  exact tracks_need_bind (picks_kind hidle) _ mode fun l m hlm _ => h l m hlm

end

/-! ## Attempts and loops -/

theorem tracks_mark : P.Follows (P.At l m) id mark mark (P.At l m) :=
  fun _ _ hcd => ⟨_, rfl, P.mark hcd.beside, hcd.left, hcd.right⟩

theorem tracks_commit : P.Tracks id commit commit := fun _ _ hcd => ⟨_, rfl, P.commit hcd⟩

theorem tracks_rollback : P.Tracks id rollback rollback := fun _ _ hcd => ⟨_, rfl, P.rollback hcd⟩

theorem tracks_attempt {h : α → α'} {p : Parser (Option α)} {q : Parser (Option α')}
    (hmark : ∀ c d, pre c d → pre c.mark d.mark)
    (hp : P.Follows pre (Option.map h) p q P.beside) :
    P.Follows pre (Option.map h) (attempt p) (attempt q) P.beside := by
  have hmarked : P.Follows pre id mark mark pre := fun c d hcd => ⟨_, rfl, hmark c d hcd⟩
  apply tracks_bind hmarked
  intro _
  apply tracks_bind hp
  intro o
  cases o with
  | none => exact tracks_bind tracks_rollback fun _ => tracks_pure rfl
  | some a => exact tracks_bind tracks_commit fun _ => tracks_pure rfl

/-- A loop does the same in both sources if each of its steps does. -/
theorem tracks_many {h : α → α'} {step : Parser (Option α)} {step' : Parser (Option α')}
    {R S : Cursor → Cursor → Prop} (hclosed : ∀ c d, R c d → c.Closed ∧ d.Closed)
    (hstep : Progresses step) (hstep' : Progresses step')
    (hsteps : ∀ c d, R c d → AgreeStep P.strict P.alike h R S (step c) (step' d)) :
    P.Follows R (List.map h) (many step) (many step') S := by
  intro c d hcd
  -- Each round that answers takes a lexeme, so the induction is on how many are ahead.
  induction n : c.ahead.length using Nat.strongRecOn generalizing c d with
  | _ n ih =>
    subst n
    obtain ⟨hc, hd⟩ := hclosed c d hcd
    have hagree := hsteps c d hcd
    rw [many_apply hstep hc, many_apply hstep' hd]
    rcases hr : step c with e | ⟨_ | a, c'⟩
    · rw [hr] at hagree
      intro hstrict
      obtain ⟨e', hd', halike⟩ := hagree hstrict
      exact ⟨e', by rw [hd'], halike⟩
    · rw [hr] at hagree
      obtain ⟨d', hd', hcd'⟩ := hagree
      rw [hd']
      exact ⟨d', rfl, hcd'⟩
    · rw [hr] at hagree
      obtain ⟨d', hd', hcd'⟩ := hagree
      rw [hd']
      obtain ⟨-, hshorter⟩ := hstep.shorter hc hr
      have hrest := ih _ hshorter c' d' hcd' rfl
      dsimp only
      rcases hm : many step c' with e | ⟨as, c''⟩
      · rw [hm] at hrest
        intro hstrict
        obtain ⟨e', hd'', halike⟩ := hrest hstrict
        exact ⟨e', by rw [hd'']; rfl, halike⟩
      · rw [hm] at hrest
        obtain ⟨d'', hd'', hcd''⟩ := hrest
        rw [hd'']
        exact ⟨d'', rfl, hcd''⟩

end Parser

end CommandScript
