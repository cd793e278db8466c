import CommandScript.Parser.Basic

/-!
What a parser takes. On lexemes that end with the end of the source, a parser that answers has taken
a run of lexemes from the front of those ahead, and the marks are as they were. `Takes` says what
the answer, the run and the next lexeme have to do with each other; there is one rule for each way
to make parsers, and a loop that takes a lexeme in every round needs no more rounds than it is given.
-/

namespace CommandScript
set_option autoImplicit false

/-! ## Runs of lexemes -/

namespace Cursor

/-- The lexemes that are not taken yet, from the one on which the cursor stands. -/
def ahead (c : Cursor) : List Lexeme := c.position.lexeme :: c.position.rest

/-- The lexemes end with the end of the source. -/
def Closed (c : Cursor) : Prop :=
  ∃ last, c.ahead.getLast? = some last ∧ last.kind = .endOfFile

/-- From the first cursor to the second one just the lexemes `ts` are taken. -/
structure Took (c : Cursor) (ts : List Lexeme) (c' : Cursor) : Prop where
  ahead : c.ahead = ts ++ c'.ahead
  checkpoints : c'.checkpoints = c.checkpoints

variable {c c' c'' : Cursor} {ts us : List Lexeme}

theorem ahead_eq (c : Cursor) : c.ahead = c.peek :: c.position.rest := rfl

theorem Took.nothing (c : Cursor) : c.Took [] c := ⟨rfl, rfl⟩

theorem Took.trans (h : c.Took ts c') (h' : c'.Took us c'') : c.Took (ts ++ us) c'' := by
  refine ⟨?_, h'.checkpoints.trans h.checkpoints⟩
  rw [h.ahead, h'.ahead, List.append_assoc]

theorem Took.closed (h : c.Took ts c') (hc : c.Closed) : c'.Closed := by
  obtain ⟨last, hahead, hlast⟩ := hc
  refine ⟨last, ?_, hlast⟩
  rw [h.ahead, List.getLast?_append, ahead_eq, List.getLast?_cons] at hahead
  rw [ahead_eq, List.getLast?_cons]
  exact hahead

theorem Took.length_le (h : c.Took ts c') : c'.ahead.length ≤ c.ahead.length := by
  rw [h.ahead, List.length_append]
  exact Nat.le_add_left _ _

/-! ## Moves of a cursor -/

/-- Only the end of the source can be the last lexeme, so any other one can be taken. -/
theorem took_advance (hc : c.Closed) (hkind : c.peek.kind ≠ .endOfFile) :
    c.Took [c.peek] c.advance := by
  obtain ⟨⟨index, lexeme, rest⟩, checkpoints⟩ := c
  cases rest with
  | nil =>
    obtain ⟨last, hahead, hlast⟩ := hc
    obtain rfl : lexeme = last := Option.some.inj hahead
    exact absurd hlast hkind
  | cons next rest => exact ⟨rfl, rfl⟩

theorem advance_shorter (hc : c.Closed) (hkind : c.peek.kind ≠ .endOfFile) :
    c.advance.ahead.length < c.ahead.length := by
  rw [(took_advance hc hkind).ahead]
  exact Nat.lt_succ_self _

theorem ahead_passFrom (skips : LexemeKind → Bool) (i : Nat) (l : Lexeme) (ls : List Lexeme) :
    ∃ skipped, (∀ x ∈ skipped, skips x.kind) ∧
      l :: ls = skipped ++
        ((Position.passFrom skips i l ls).lexeme :: (Position.passFrom skips i l ls).rest) := by
  induction ls generalizing i l with
  | nil => exact ⟨[], by simp, rfl⟩
  | cons l' ls ih =>
    unfold Position.passFrom
    split
    · rename_i hskips
      obtain ⟨skipped, hall, heq⟩ := ih (i + 1) l'
      refine ⟨l :: skipped, ?_, congrArg (l :: ·) heq⟩
      intro x hx
      rcases List.mem_cons.mp hx with rfl | hx
      · exact hskips
      · exact hall x hx
    · exact ⟨[], by simp, rfl⟩

theorem took_skipWhile (skips : LexemeKind → Bool) (c : Cursor) :
    ∃ skipped, (∀ x ∈ skipped, skips x.kind) ∧ c.Took skipped (c.skipWhile skips) := by
  obtain ⟨skipped, hall, heq⟩ :=
    ahead_passFrom skips c.position.index c.position.lexeme c.position.rest
  exact ⟨skipped, hall, heq, rfl⟩

theorem skipWhile_of_not {skips : LexemeKind → Bool} (hskips : skips c.peek.kind = false) : c.skipWhile skips = c := by
  obtain ⟨⟨index, lexeme, behind⟩, checkpoints⟩ := c
  cases behind with
  | nil => rfl
  | cons l ls =>
    change skips lexeme.kind = false at hskips
    unfold skipWhile Position.pass Position.passFrom
    simp only [hskips, Bool.false_eq_true, if_false]

theorem skipWhile_advance {skips : LexemeKind → Bool} (hskips : skips c.peek.kind) :
    c.skipWhile skips = c.advance.skipWhile skips := by
  obtain ⟨⟨index, lexeme, behind⟩, checkpoints⟩ := c
  cases behind with
  | nil => rfl
  | cons l ls =>
    change skips lexeme.kind = true at hskips
    unfold skipWhile Position.pass
    conv => lhs; unfold Position.passFrom
    simp only [hskips, if_true]
    rfl

/-- What is skipped first does not matter if it is skipped anyway. -/
theorem skipWhile_skipWhile {skips skips' : LexemeKind → Bool} (h : ∀ kind, skips kind → skips' kind)
    (c : Cursor) : (c.skipWhile skips).skipWhile skips' = c.skipWhile skips' := by
  induction hrest : c.position.rest generalizing c with
  | nil =>
    obtain ⟨⟨index, lexeme, rest⟩, checkpoints⟩ := c
    obtain rfl : rest = [] := hrest
    rfl
  | cons l ls ih =>
    cases hskips : skips c.peek.kind with
    | false => rw [skipWhile_of_not hskips]
    | true =>
      rw [skipWhile_advance hskips, skipWhile_advance (h _ hskips)]
      refine ih c.advance ?_
      obtain ⟨⟨index, lexeme, rest⟩, checkpoints⟩ := c
      obtain rfl : rest = l :: ls := hrest
      rfl

theorem skips_peek_skipWhile {skips : LexemeKind → Bool} (hend : skips .endOfFile = false) {c : Cursor}
    (hc : c.Closed) : skips (c.skipWhile skips).peek.kind = false := by
  induction hlength : c.ahead.length using Nat.strongRecOn generalizing c with
  | _ n ih =>
    cases hskips : skips c.peek.kind with
    | false => rwa [skipWhile_of_not hskips]
    | true =>
      have hkind : c.peek.kind ≠ .endOfFile := fun h => by
        rw [h, hend] at hskips
        exact nomatch hskips
      rw [skipWhile_advance hskips]
      exact ih _ (hlength ▸ advance_shorter hc hkind) ((took_advance hc hkind).closed hc) rfl

end Cursor

/-! ## Parsers -/

namespace Parser

variable {α β : Type}

@[simp] theorem pure_apply (a : α) (c : Cursor) : (pure a : Parser α) c = .ok (a, c) := rfl

theorem bind_apply (p : Parser α) (f : α → Parser β) (c : Cursor) :
    (p >>= f) c =
      match p c with
      | .ok (a, c') => f a c'
      | .error e => .error e := by
  change (p c >>= fun r => f r.1 r.2) = _
  rcases p c with e | ⟨a, c'⟩ <;> rfl

/-- Where the parser starts at the lexeme `l` and answers, its answer, the lexemes it has taken and
the lexeme at which it stops are as `Q` says. -/
def Takes (p : Parser α) (l : Lexeme) (Q : α → List Lexeme → Lexeme → Prop) : Prop :=
  ∀ ⦃c a c'⦄, c.Closed → c.peek = l → p c = .ok (a, c') → ∃ ts, c.Took ts c' ∧ Q a ts c'.peek

variable {p : Parser α} {f : α → Parser β} {l : Lexeme} {P : α → List Lexeme → Lexeme → Prop}
  {Q : β → List Lexeme → Lexeme → Prop}

theorem Takes.weaken {P' : α → List Lexeme → Lexeme → Prop} (h : Takes p l P)
    (hP : ∀ a ts l', P a ts l' → P' a ts l') : Takes p l P' := by
  intro c a c' hc hl hp
  obtain ⟨ts, htook, hts⟩ := h hc hl hp
  exact ⟨ts, htook, hP a ts _ hts⟩

theorem Takes.head (h : Takes p l P) :
    Takes p l fun a ts l' => P a ts l' ∧ ∀ x ∈ ts.head?, x = l := by
  intro c a c' hc hl hp
  obtain ⟨ts, htook, hts⟩ := h hc hl hp
  refine ⟨ts, htook, hts, ?_⟩
  have hahead := htook.ahead
  rw [Cursor.ahead_eq, hl] at hahead
  cases ts with
  | nil => intro x hx; exact nomatch hx
  | cons t ts =>
    intro x hx
    obtain rfl : t = x := Option.some.inj hx
    exact (List.cons.inj hahead).1.symm

theorem takes_pure {a : α} (h : P a [] l) : Takes (pure a) l P := by
  intro c b c' hc hl hp
  cases hp
  exact ⟨[], .nothing c, hl.symm ▸ h⟩

theorem takes_fail (fault : SyntaxFault) (x : Lexeme) : Takes (fail fault x : Parser α) l P :=
  fun _ _ _ _ _ hp => nomatch hp

theorem takes_bind (hp : Takes p l P)
    (hf : ∀ a ts l', P a ts l' → Takes (f a) l' fun b us l'' => Q b (ts ++ us) l'') :
    Takes (p >>= f) l Q := by
  intro c b c'' hc hl h
  rw [bind_apply] at h
  rcases hr : p c with e | ⟨a, c'⟩
  · rw [hr] at h
    exact nomatch h
  · rw [hr] at h
    obtain ⟨ts, htook, hts⟩ := hp hc hl hr
    obtain ⟨us, htook', hus⟩ := hf a ts _ hts (htook.closed hc) rfl h
    exact ⟨ts ++ us, htook.trans htook', hus⟩

theorem takes_peek_bind {f : Lexeme → Parser β} (h : Takes (f l) l Q) : Takes (peek >>= f) l Q := by
  intro c b c' hc hl hp
  rw [bind_apply] at hp
  exact h hc hl (hl ▸ hp)

theorem takes_peekPast_bind {f : Lexeme → Parser β} {mode : Skip} (h : ∀ x, Takes (f x) l Q) :
    Takes (peekPast mode >>= f) l Q := by
  intro c b c' hc hl hp
  rw [bind_apply] at hp
  exact h _ hc hl hp

theorem takes_advance_bind {f : Lexeme → Parser β} (hkind : l.kind ≠ .endOfFile)
    (h : ∀ l', Takes (f l) l' fun b us l'' => Q b (l :: us) l'') :
    Takes (advance >>= f) l Q := by
  intro c b c' hc hl hp
  subst hl
  have htook := Cursor.took_advance hc hkind
  obtain ⟨us, htook', hus⟩ := h _ (htook.closed hc) rfl hp
  exact ⟨c.peek :: us, htook.trans htook', hus⟩

theorem takes_skipWhile (skips : LexemeKind → Bool) :
    Takes (skipWhile skips) l fun _ ts _ => ∀ x ∈ ts, skips x.kind := by
  intro c a c' hc hl hp
  cases hp
  obtain ⟨skipped, hall, htook⟩ := Cursor.took_skipWhile skips c
  exact ⟨skipped, htook, hall⟩

theorem takes_skip (mode : Skip) : Takes (skip mode) l fun _ ts _ => ∀ x ∈ ts, mode.skips x.kind :=
  takes_skipWhile mode.skips

/-- What is taken in search of a lexeme: what may be skipped, and the lexeme, if it is there. -/
inductive Found (wanted : Lexeme → Bool) (mode : Skip) : Option Lexeme → List Lexeme → Prop where
  | none : Found wanted mode none []
  | some {skipped : List Lexeme} {x : Lexeme} :
      (∀ s ∈ skipped, mode.skips s.kind) → wanted x → Found wanted mode (some x) (skipped ++ [x])

theorem takes_tryTakeIf {wanted : Lexeme → Bool} (mode : Skip)
    (hwanted : ∀ x, wanted x → x.kind ≠ .endOfFile) :
    Takes (tryTakeIf wanted mode) l fun o ts l' => Found wanted mode o ts ∧ (o = none → l' = l) := by
  intro c a c' hc hl hp
  unfold tryTakeIf at hp
  rw [Cursor.tryTakeIf_eq] at hp
  split at hp
  · rename_i h
    cases hp
    obtain ⟨skipped, hall, htook⟩ := Cursor.took_skipWhile mode.skips c
    have htook' := htook.trans (Cursor.took_advance (htook.closed hc) (hwanted _ h))
    exact ⟨_, htook', .some hall h, fun hnone => nomatch hnone⟩
  · cases hp
    exact ⟨[], .nothing c, .none, fun _ => hl⟩

theorem takes_tryTake {kind : LexemeKind} (mode : Skip) (hkind : kind ≠ .endOfFile) :
    Takes (tryTake kind mode) l fun o ts l' =>
      Found (fun x => x.kind == kind) mode o ts ∧ (o = none → l' = l) := by
  refine takes_tryTakeIf mode fun x hx => ?_
  rw [beq_iff_eq] at hx
  exact hx ▸ hkind

theorem takes_take {kind : LexemeKind} (mode : Skip) (hkind : kind ≠ .endOfFile) :
    Takes (take kind mode) l fun x ts _ => Found (fun x => x.kind == kind) mode (some x) ts := by
  intro c a c' hc hl hp
  unfold take Cursor.take at hp
  rcases htry : c.tryTake kind mode with ⟨o, c''⟩
  rw [htry] at hp
  have hok : tryTake kind mode c = .ok (o, c'') := congrArg Except.ok htry
  obtain ⟨ts, htook, hfound, -⟩ := takes_tryTake mode hkind hc hl hok
  cases o with
  | none => exact nomatch hp
  | some x =>
    cases hp
    exact ⟨ts, htook, hfound⟩

/-! ## Attempts -/

/-- Runs a parser and goes back to where it began if that has no answer. -/
def attempt (p : Parser (Option α)) : Parser (Option α) := do
  mark
  match ← p with
  | some a =>
    commit
    pure (some a)
  | none =>
    rollback
    pure none

section

variable {p : Parser (Option α)} {c c' : Cursor}

theorem attempt_apply_some {a : α} (hrun : p c.mark = .ok (some a, c')) :
    attempt p c = .ok (some a, c'.commit) := by
  unfold attempt
  rw [bind_apply]
  change ((p >>= fun o => _) : Parser (Option α)) c.mark = _
  rw [bind_apply, hrun]
  rfl

theorem attempt_apply_none (hrun : p c.mark = .ok (none, c')) :
    attempt p c = .ok (none, c'.rollback) := by
  unfold attempt
  rw [bind_apply]
  change ((p >>= fun o => _) : Parser (Option α)) c.mark = _
  rw [bind_apply, hrun]
  rfl

theorem attempt_apply_error {fault : ParseError} (hrun : p c.mark = .error fault) :
    attempt p c = .error fault := by
  unfold attempt
  rw [bind_apply]
  change ((p >>= fun o => _) : Parser (Option α)) c.mark = _
  rw [bind_apply, hrun]

end

theorem takes_attempt {p : Parser (Option α)} {P : α → List Lexeme → Lexeme → Prop}
    (h : Takes p l fun o ts l' => ∀ a, o = some a → P a ts l') :
    Takes (attempt p) l fun o ts l' =>
      match o with
      | some a => P a ts l'
      | none => ts = [] ∧ l' = l := by
  intro c o c' hc hl hp
  rcases hr : p c.mark with e | ⟨_ | a, c''⟩
  · rw [attempt_apply_error hr] at hp
    exact nomatch hp
  · rw [attempt_apply_none hr] at hp
    obtain ⟨ts, htook, -⟩ := h (show c.mark.Closed from hc) hl hr
    have hback : c''.rollback = c := by
      unfold Cursor.rollback
      rw [htook.checkpoints]
      rfl
    rw [hback] at hp
    cases hp
    exact ⟨[], .nothing c, rfl, hl⟩
  · rw [attempt_apply_some hr] at hp
    obtain ⟨ts, htook, hts⟩ := h (show c.mark.Closed from hc) hl hr
    cases hp
    refine ⟨ts, ⟨htook.ahead, ?_⟩, hts a rfl⟩
    unfold Cursor.commit
    rw [htook.checkpoints]
    rfl

/-! ## Repetition -/

/-- Answers one after the other, and the lexemes taken for them. -/
inductive Repeated (one : α → List Lexeme → Prop) : List α → List Lexeme → Prop where
  | nil : Repeated one [] []
  | cons {a : α} {as : List α} {ts us : List Lexeme} :
      one a ts → Repeated one as us → Repeated one (a :: as) (ts ++ us)

namespace Repeated

variable {one : α → List Lexeme → Prop} {a : α} {as bs : List α} {ts us : List Lexeme}

theorem single (h : one a ts) : Repeated one [a] ts := by
  have h' := Repeated.cons h .nil
  rwa [List.append_nil] at h'

theorem imp {one' : α → List Lexeme → Prop} (hone : ∀ a ts, one a ts → one' a ts)
    (h : Repeated one as ts) : Repeated one' as ts := by
  induction h with
  | nil => exact .nil
  | cons h _ ih => exact .cons (hone _ _ h) ih

theorem exists_of_mem (h : Repeated one as ts) (ha : a ∈ as) : ∃ us, one a us := by
  induction h with
  | nil => exact nomatch ha
  | cons hone _ ih =>
    rcases List.mem_cons.mp ha with rfl | ha
    · exact ⟨_, hone⟩
    · exact ih ha

theorem append (h : Repeated one as ts) (h' : Repeated one bs us) :
    Repeated one (as ++ bs) (ts ++ us) := by
  induction h with
  | nil => exact h'
  | cons hone hmore ih =>
    rw [List.cons_append, List.append_assoc]
    exact .cons hone ih

theorem of_append (h : Repeated one (as ++ bs) ts) :
    ∃ us vs, ts = us ++ vs ∧ Repeated one as us ∧ Repeated one bs vs := by
  induction as generalizing ts with
  | nil => exact ⟨[], ts, rfl, .nil, h⟩
  | cons a as ih =>
    obtain _ | ⟨hone, hmore⟩ := h
    obtain ⟨us, vs, rfl, has, hbs⟩ := ih hmore
    exact ⟨_, vs, (List.append_assoc ..).symm, .cons hone has, hbs⟩

theorem of_single (h : Repeated one [a] ts) : one a ts := by
  obtain _ | ⟨hone, ⟨⟩⟩ := h
  rwa [List.append_nil]

end Repeated

variable {step : Parser (Option α)} {one : α → List Lexeme → Prop}
  {stop : List Lexeme → Lexeme → Prop}

/-- What a step of a loop has to do: take lexemes for its answer, or stop. -/
def Steps (step : Parser (Option α)) (one : α → List Lexeme → Prop)
    (stop : List Lexeme → Lexeme → Prop) : Prop :=
  ∀ l, Takes step l fun o ts l' =>
    match o with
    | some a => one a ts ∧ ts ≠ []
    | none => stop ts l'

theorem takes_manyWithin (hstep : Steps step one stop) (rounds : List Lexeme) (found : List α) :
    ∀ ⦃c as c'⦄, c.Closed → c.ahead.length ≤ rounds.length →
      manyWithin step found rounds c = .ok (as, c') →
        ∃ more us vs, as = found.reverse ++ more ∧ c.Took (us ++ vs) c' ∧
          Repeated one more us ∧ stop vs c'.peek := by
  -- The invariant is that as many rounds are left as there are lexemes ahead. A round that answers
  -- takes a lexeme, and one lexeme is always ahead, so the rounds do not run out.
  induction rounds generalizing found with
  | nil =>
    intro c as c' hc hrounds hp
    exact absurd hrounds (by rw [Cursor.ahead_eq]; simp)
  | cons x rounds ih =>
    intro c as c' hc hrounds hp
    unfold manyWithin at hp
    rcases hr : step c with e | ⟨_ | a, c''⟩
    · rw [hr] at hp
      exact nomatch hp
    · rw [hr] at hp
      cases hp
      obtain ⟨vs, htook, hstop⟩ := hstep _ hc rfl hr
      exact ⟨[], [], vs, (List.append_nil _).symm, htook, .nil, hstop⟩
    · rw [hr] at hp
      obtain ⟨ts, htook, hone, hne⟩ := hstep _ hc rfl hr
      have hfewer : c''.ahead.length ≤ rounds.length := by
        have htotal := congrArg List.length htook.ahead
        have hpos := List.length_pos_iff.mpr hne
        rw [List.length_append] at htotal
        rw [List.length_cons] at hrounds
        omega
      obtain ⟨more, us, vs, rfl, htook', hmore, hstop⟩ := ih (a :: found) (htook.closed hc) hfewer hp
      refine ⟨a :: more, ts ++ us, vs, ?_, ?_, .cons hone hmore, hstop⟩
      · rw [List.reverse_cons, List.append_assoc, List.singleton_append]
      · rw [List.append_assoc]
        exact htook.trans htook'

theorem takes_many (hstep : Steps step one stop) :
    Takes (many step) l fun as ts l' =>
      ∃ us vs, ts = us ++ vs ∧ Repeated one as us ∧ stop vs l' := by
  intro c as c' hc hl hp
  obtain ⟨more, us, vs, rfl, htook, hmore, hstop⟩ :=
    takes_manyWithin hstep _ [] hc (Nat.le_refl _) hp
  exact ⟨us ++ vs, htook, us, vs, rfl, hmore, hstop⟩

/-- Whatever answers has taken a lexeme. -/
def Progresses (step : Parser (Option α)) : Prop :=
  ∀ l, Takes step l fun o ts _ => o = none ∨ ts ≠ []

theorem Progresses.shorter {step : Parser (Option α)} (hstep : Progresses step) {c c' : Cursor}
    {a : α} (hc : c.Closed) (h : step c = .ok (some a, c')) :
    c'.Closed ∧ c'.ahead.length < c.ahead.length := by
  obtain ⟨ts, htook, hnone | hne⟩ := hstep _ hc rfl h
  · exact nomatch hnone
  · refine ⟨htook.closed hc, ?_⟩
    have hpos := List.length_pos_iff.mpr hne
    rw [htook.ahead, List.length_append]
    omega

theorem manyWithin_found (step : Parser (Option α)) (rounds : List Lexeme) (found : List α)
    (c : Cursor) :
    manyWithin step found rounds c =
      (manyWithin step [] rounds c).map fun r => (found.reverse ++ r.1, r.2) := by
  induction rounds generalizing found c with
  | nil => simp [manyWithin, Except.map]
  | cons x rounds ih =>
    unfold manyWithin
    rcases step c with e | ⟨_ | a, c'⟩
    · rfl
    · simp [Except.map]
    · dsimp only
      rw [ih (a :: found), ih [a]]
      cases manyWithin step [] rounds c' <;> simp [Except.map]

/-- As many rounds as there are lexemes are enough, so more of them change nothing. -/
theorem manyWithin_rounds {step : Parser (Option α)} (hstep : Progresses step)
    (rounds rounds' : List Lexeme) (found : List α) {c : Cursor} (hc : c.Closed)
    (h : c.ahead.length ≤ rounds.length) (h' : c.ahead.length ≤ rounds'.length) :
    manyWithin step found rounds c = manyWithin step found rounds' c := by
  have hpos : 0 < c.ahead.length := Nat.succ_pos _
  induction rounds generalizing rounds' found c with
  | nil => exact absurd h (Nat.not_le.mpr hpos)
  | cons x rounds ih =>
    cases rounds' with
    | nil => exact absurd h' (Nat.not_le.mpr hpos)
    | cons x' rounds' =>
      unfold manyWithin
      rcases hr : step c with e | ⟨_ | a, c'⟩
      · rfl
      · rfl
      · obtain ⟨hc', hshorter⟩ := hstep.shorter hc hr
        rw [List.length_cons] at h h'
        exact ih rounds' (a :: found) hc' (by omega) (by omega) (Nat.succ_pos _)

/-- A loop is its first step and the same loop behind it. -/
theorem many_apply {step : Parser (Option α)} (hstep : Progresses step) {c : Cursor}
    (hc : c.Closed) :
    many step c =
      match step c with
      | .error e => .error e
      | .ok (none, c') => .ok ([], c')
      | .ok (some a, c') => (many step c').map fun r => (a :: r.1, r.2) := by
  conv => lhs; unfold many manyWithin
  rcases hr : step c with e | ⟨_ | a, c'⟩
  · rfl
  · rfl
  · obtain ⟨hc', hshorter⟩ := hstep.shorter hc hr
    dsimp only
    rw [manyWithin_found, manyWithin_rounds hstep _ c'.ahead [] hc' ?_ (Nat.le_refl _)]
    · rfl
    · rw [c.ahead_eq, List.length_cons] at hshorter
      omega

/-- What a loop goes on to find, behind what was found already. -/
def manyBehind (step : Parser (Option α)) (found : List α) : Parser (List α) :=
  (found ++ ·) <$> many step

theorem manyBehind_apply {step : Parser (Option α)} (hstep : Progresses step) (found : List α)
    {c : Cursor} (hc : c.Closed) :
    manyBehind step found c =
      (step >>= fun o => o.elim (pure found) fun a => manyBehind step (found ++ [a])) c := by
  unfold manyBehind
  rw [map_eq_pure_bind, bind_apply, many_apply hstep hc, bind_apply]
  rcases step c with e | ⟨_ | a, c'⟩
  · rfl
  · exact congrArg (fun as => Except.ok (as, c')) (List.append_nil found)
  · dsimp only [Option.elim]
    rw [map_eq_pure_bind, bind_apply]
    rcases many step c' with e | ⟨as, c''⟩
    · rfl
    · exact congrArg (fun as => Except.ok (as, c'')) (List.append_cons found a as)

@[simp] theorem manyBehind_nil (step : Parser (Option α)) : manyBehind step [] = many step := by
  unfold manyBehind
  exact id_map (many step)

end Parser

end CommandScript
