import CommandScript.Proofs.Parser.Alongside
import CommandScript.Proofs.Parser.Depth
import CommandScript.Proofs.Walker.Recursion

/-!
Parsing by index. A walker keeps the number of the lexeme on which it stands, a stack of such numbers to
go back to, and a counter for the nesting of operands. Nothing in it rules out that a number has no
lexeme, or that a loop does not end; both are outcomes of a walk. `Imitates` says that on lexemes that
end with the end of the source a walker does what a parser does, and has neither of these outcomes.
-/

namespace CommandScript
set_option autoImplicit false

/-! ## Walks -/

namespace Walk

def start : Walk := ⟨0, [], false, 0, 0⟩

def goTo (i : Nat) (w : Walk) : Walk := { w with index := i }

def deeper (w : Walk) : Walk :=
  { w with nesting := w.nesting + 1, deepest := max w.deepest (w.nesting + 1) }

def back (w : Walk) : Walk := { w with nesting := w.nesting - 1 }

def inside (inFunction : Bool) (w : Walk) : Walk := { w with inFunction := inFunction }

end Walk

namespace Walker

variable {α : Type} (ls : List Lexeme)

def fail (fault : SyntaxFault) (l : Lexeme) : Walker α := throw (.fault (.ofLexeme fault l))

/-! ## Lexemes by index -/

def lexemeAt (i : Nat) : Walker Lexeme :=
  match ls[i]? with
  | some l => pure l
  | none => throw .outOfRange

/-- The index of the last lexeme; there is none in an empty list. -/
def last : Walker Nat := if ls.length = 0 then throw .outOfRange else pure (ls.length - 1)

def peek : Walker Lexeme := do lexemeAt ls (← get).index

def advance : Walker Lexeme := do
  let l ← peek ls
  let last ← last ls
  modify fun w => w.goTo (min (w.index + 1) last)
  pure l

noncomputable def skip : Skip → Walker Unit :=
  fix fun skip mode => do
    let l ← peek ls
    if mode.skips l.kind then
      let _ ← advance ls
      skip mode
    else pure ()

noncomputable def peekPastFrom (mode : Skip) : Nat → Walker Lexeme :=
  fix fun peekPastFrom i => do
    let l ← lexemeAt ls i
    let last ← last ls
    if mode.skips l.kind ∧ i < last then peekPastFrom (i + 1) else lexemeAt ls i

noncomputable def peekPast (mode : Skip) : Walker Lexeme := do peekPastFrom ls mode (← get).index

theorem skip_eq (mode : Skip) :
    skip ls mode = (do
      let l ← peek ls
      if mode.skips l.kind then
        let _ ← advance ls
        skip ls mode
      else pure ()) := by
  refine fix_eq (fun call called hcall mode => ?_) mode
  exact .after _ fun l => .ite (.after _ fun _ => hcall mode) (.const _)

theorem peekPastFrom_eq (mode : Skip) (i : Nat) :
    peekPastFrom ls mode i = (do
      let l ← lexemeAt ls i
      let last ← last ls
      if mode.skips l.kind ∧ i < last then peekPastFrom ls mode (i + 1) else lexemeAt ls i) := by
  refine fix_eq (fun call called hcall i => ?_) i
  exact .after _ fun l => .after _ fun last => .ite (hcall (i + 1)) (.const _)

/-! ## Marks -/

def mark : Walker Unit := modify fun w => { w with marks := w.index :: w.marks }

def commit : Walker Unit := modify fun w => { w with marks := w.marks.tail }

def rollback : Walker Unit :=
  modify fun w =>
    match w.marks with
    | [] => w
    | i :: is => { w with index := i, marks := is }

noncomputable def tryTakeIf (wanted : Lexeme → Bool) (mode : Skip) : Walker (Option Lexeme) := do
  mark
  skip ls mode
  let l ← peek ls
  if wanted l then
    commit
    let l ← advance ls
    pure (some l)
  else
    rollback
    pure none

noncomputable def tryTake (kind : LexemeKind) (mode : Skip) : Walker (Option Lexeme) :=
  tryTakeIf ls (fun l => l.kind == kind) mode

noncomputable def take (kind : LexemeKind) (mode : Skip) : Walker Lexeme := do
  match ← tryTake ls kind mode with
  | some l => pure l
  | none => fail (.expected kind) (← peekPast ls mode)

end Walker

/-! ## Walks and cursors -/

/-- The position has the lexeme and those behind it in the list. -/
def Position.In (ls : List Lexeme) (p : Position) : Prop := ls.drop p.index = p.ahead

namespace Walk

/-- The walk stands where the cursor does, and its marks are those of the cursor. -/
structure Shows (ls : List Lexeme) (c : Cursor) (w : Walk) : Prop where
  index : w.index = c.position.index
  position : c.position.In ls
  marks : w.marks = c.checkpoints.map Position.index
  checkpoints : ∀ p ∈ c.checkpoints, p.In ls

/-- The walk is inside `n` operands, inside a function or not, and it was never too deep. -/
structure Level (n : Nat) (inFunction : Bool) (w : Walk) : Prop where
  nesting : w.nesting = n
  inFunction : w.inFunction = inFunction
  deepest : w.deepest ≤ Parser.maxDepth

end Walk

namespace Position

variable {ls : List Lexeme} {p : Position}

theorem In.lexeme (h : p.In ls) : ls[p.index]? = some p.lexeme := by
  rw [← List.head?_drop, h]
  rfl

theorem In.length (h : p.In ls) : ls.length = p.index + p.rest.length + 1 := by
  have hlength := congrArg List.length h
  rw [List.length_drop, ahead, List.length_cons] at hlength
  omega

theorem In.closed (h : p.In ls) (hends : Ends ls) : Ends p.ahead := by
  obtain ⟨last, hlast, hkind⟩ := hends
  refine ⟨last, ?_, hkind⟩
  have hlength := h.length
  rw [← h, List.getLast?_drop, if_neg (by omega), hlast]

theorem In.next (h : p.In ls) : p.next.In ls := by
  obtain ⟨i, l, rest⟩ := p
  cases rest with
  | nil => exact h
  | cons l' rest =>
    change ls.drop (i + 1) = l' :: rest
    rw [← List.tail_drop]
    exact congrArg List.tail h

theorem In.index_next (h : p.In ls) : p.next.index = min (p.index + 1) (ls.length - 1) := by
  rw [h.length]
  obtain ⟨i, l, rest⟩ := p
  cases rest with
  | nil => simp [Position.next]
  | cons l' rest => simp [Position.next]

end Position

namespace Walker

variable {α β : Type} {ls : List Lexeme} {n : Nat} {inFunction : Bool}

section

variable (ls n inFunction)

/-- The walk ends as the parser does, with the same answer in the same place or with the same fault,
and on the same level as before. -/
def Meets (r : Option (Except Halt α × Walk)) : Except ParseError (α × Cursor) → Prop
  | .ok (a, c) => ∃ w : Walk, r = some (.ok a, w) ∧ w.Level n inFunction ∧ w.Shows ls c
  | .error e => ∃ w : Walk, r = some (.error (.fault e), w) ∧ w.Level n inFunction

/-- From any place on its level the walker does what the parser does. -/
def Imitates (p : Walker α) (q : Parser α) : Prop :=
  ∀ w c, w.Level n inFunction → w.Shows ls c → Meets ls n inFunction (p w) (q c)

end

variable {p : Walker α} {q : Parser α} {f : α → Walker β} {g : α → Parser β}

theorem meets_bind {w : Walk} {c : Cursor} (h : Meets ls n inFunction (p w) (q c))
    (hnext : ∀ a w' c', q c = .ok (a, c') → w'.Level n inFunction → w'.Shows ls c' →
      Meets ls n inFunction (f a w') (g a c')) :
    Meets ls n inFunction ((p >>= f) w) ((q >>= g) c) := by
  rw [bind_apply, Parser.bind_apply]
  rcases hr : q c with e | ⟨a, c'⟩
  · rw [hr] at h
    obtain ⟨w', hp, hlevel⟩ := h
    rw [hp]
    exact ⟨w', rfl, hlevel⟩
  · rw [hr] at h
    obtain ⟨w', hp, hlevel, hshows⟩ := h
    rw [hp]
    exact hnext a w' c' hr hlevel hshows

theorem imitates_bind (h : Imitates ls n inFunction p q)
    (hnext : ∀ a, Imitates ls n inFunction (f a) (g a)) :
    Imitates ls n inFunction (p >>= f) (q >>= g) := by
  intro w c hlevel hshows
  apply meets_bind (h w c hlevel hshows)
  intro a w' c' _ hlevel' hshows'
  exact hnext a w' c' hlevel' hshows'

/-- As `imitates_bind`, where all answers of the first parser are known to be as `P` says. -/
theorem imitates_bind_of_gives {P : α → Prop} (h : Imitates ls n inFunction p q)
    (hgives : Parser.Gives q P) (hnext : ∀ a, P a → Imitates ls n inFunction (f a) (g a)) :
    Imitates ls n inFunction (p >>= f) (q >>= g) := by
  intro w c hlevel hshows
  apply meets_bind (h w c hlevel hshows)
  intro a w' c' hq hlevel' hshows'
  exact hnext a (hgives c a c' hq) w' c' hlevel' hshows'

/-- To imitate a parser from one place it is enough to do so if all places further on are settled. -/
theorem imitates_of_shorter {ι : Type} {p : ι → Walker α} {q : ι → Parser α}
    (h : ∀ i w c, w.Level n inFunction → w.Shows ls c →
      (∀ i' w' c', c'.ahead.length < c.ahead.length → w'.Level n inFunction → w'.Shows ls c' →
        Meets ls n inFunction (p i' w') (q i' c')) →
      Meets ls n inFunction (p i w) (q i c)) (i : ι) :
    Imitates ls n inFunction (p i) (q i) := by
  intro w c hlevel hshows
  induction hlength : c.ahead.length using Nat.strongRecOn generalizing i w c with
  | _ k ih =>
    apply h i w c hlevel hshows
    intro i' w' c' hshorter hlevel' hshows'
    exact ih _ (hlength ▸ hshorter) i' w' c' hlevel' hshows' rfl

theorem imitates_pure (a : α) : Imitates ls n inFunction (pure a) (pure a) :=
  fun w _ hlevel hshows => ⟨w, rfl, hlevel, hshows⟩

theorem imitates_map {f : α → β} (h : Imitates ls n inFunction p q) :
    Imitates ls n inFunction (f <$> p) (f <$> q) := by
  rw [map_eq_pure_bind, map_eq_pure_bind]
  exact imitates_bind h fun a => imitates_pure (f a)

theorem imitates_fail (fault : SyntaxFault) (l : Lexeme) :
    Imitates ls n inFunction (fail fault l : Walker α) (Parser.fail fault l) :=
  fun w _ hlevel _ => ⟨w, rfl, hlevel⟩

/-! ## Lexemes by index, imitated -/

theorem lexemeAt_apply {i : Nat} {l : Lexeme} (h : ls[i]? = some l) (w : Walk) :
    lexemeAt ls i w = some (.ok l, w) := by
  unfold lexemeAt
  rw [h]
  rfl

theorem last_apply (h : ls.length ≠ 0) (w : Walk) :
    last ls w = some (.ok (ls.length - 1), w) := by
  unfold last
  rw [if_neg h]
  rfl

theorem peek_apply {w : Walk} {c : Cursor} (h : w.Shows ls c) :
    peek ls w = some (.ok c.peek, w) := by
  have hlexeme := h.position.lexeme
  rw [← h.index] at hlexeme
  exact lexemeAt_apply hlexeme w

theorem imitates_peek : Imitates ls n inFunction (peek ls) Parser.peek :=
  fun w _ hlevel hshows => ⟨w, peek_apply hshows, hlevel, hshows⟩

theorem advance_apply {w : Walk} {c : Cursor} (h : w.Shows ls c) :
    advance ls w = some (.ok c.peek, w.goTo c.advance.index) := by
  have hlength := h.position.length
  unfold advance
  rw [bind_apply, peek_apply h]
  dsimp only
  rw [bind_apply, last_apply (by omega)]
  change some (Except.ok c.peek, w.goTo (min (w.index + 1) (ls.length - 1))) = _
  rw [h.index, ← h.position.index_next]
  rfl

theorem shows_advance {w : Walk} {c : Cursor} (h : w.Shows ls c) :
    (w.goTo c.advance.index).Shows ls c.advance :=
  ⟨rfl, h.position.next, h.marks, h.checkpoints⟩

theorem imitates_advance : Imitates ls n inFunction (advance ls) Parser.advance := by
  intro w c hlevel hshows
  refine ⟨_, advance_apply hshows, ⟨hlevel.nesting, hlevel.inFunction, hlevel.deepest⟩, ?_⟩
  exact shows_advance hshows

@[simp] theorem skips_endOfFile (mode : Skip) : mode.skips .endOfFile = false := by
  cases mode <;> rfl

/-- Skipping ends, as the end of the source is not skipped. -/
theorem skip_apply (hends : Ends ls) (mode : Skip) {w : Walk} {c : Cursor} (h : w.Shows ls c) :
    skip ls mode w = some (.ok (), w.goTo (c.skipWhile mode.skips).index) ∧
      (c.skipWhile mode.skips).position.In ls := by
  induction hlength : c.ahead.length using Nat.strongRecOn generalizing w c with
  | _ k ih =>
    rw [skip_eq, bind_apply, peek_apply h]
    dsimp only
    by_cases hskips : mode.skips c.peek.kind
    · have hkind : c.peek.kind ≠ .endOfFile := fun hend => by
        rw [hend, skips_endOfFile] at hskips
        exact Bool.false_ne_true hskips
      have hshorter := Cursor.advance_shorter (h.position.closed hends) hkind
      rw [if_pos hskips, bind_apply, advance_apply h, Cursor.skipWhile_advance hskips]
      exact ih _ (hlength ▸ hshorter) (shows_advance h) rfl
    · rw [if_neg hskips, Cursor.skipWhile_of_not (Bool.not_eq_true _ ▸ hskips), Cursor.index, ← h.index]
      exact ⟨rfl, h.position⟩

theorem shows_skip (hends : Ends ls) (mode : Skip) {w : Walk} {c : Cursor} (h : w.Shows ls c) :
    (w.goTo (c.skipWhile mode.skips).index).Shows ls (c.skipWhile mode.skips) :=
  ⟨rfl, (skip_apply hends mode h).2, h.marks, h.checkpoints⟩

theorem imitates_skip (hends : Ends ls) (mode : Skip) :
    Imitates ls n inFunction (skip ls mode) (Parser.skip mode) := by
  intro w c hlevel hshows
  refine ⟨_, (skip_apply hends mode hshows).1, ?_, shows_skip hends mode hshows⟩
  exact ⟨hlevel.nesting, hlevel.inFunction, hlevel.deepest⟩

theorem peekPastFrom_apply (mode : Skip) {p : Position} (h : p.In ls) (w : Walk) :
    peekPastFrom ls mode p.index w = some (.ok (p.pass mode.skips).lexeme, w) := by
  obtain ⟨i, l, rest⟩ := p
  induction rest generalizing i l with
  | nil =>
    have hlast : ¬ i < ls.length - 1 := by
      have hlength : ls.length = i + 0 + 1 := h.length
      omega
    rw [peekPastFrom_eq, bind_apply, lexemeAt_apply h.lexeme]
    dsimp only
    rw [bind_apply, last_apply (by rw [h.length]; exact Nat.succ_ne_zero _)]
    dsimp only
    rw [if_neg fun hmore => hlast hmore.2]
    exact lexemeAt_apply h.lexeme w
  | cons l' rest ih =>
    have hlast : i < ls.length - 1 := by
      have hlength : ls.length = i + (rest.length + 1) + 1 := h.length
      omega
    rw [peekPastFrom_eq, bind_apply, lexemeAt_apply h.lexeme]
    dsimp only
    rw [bind_apply, last_apply (by rw [h.length]; exact Nat.succ_ne_zero _)]
    dsimp only
    by_cases hskips : mode.skips l.kind
    · rw [if_pos ⟨hskips, hlast⟩, Position.pass_of_skips rfl (List.cons_ne_nil _ _) hskips]
      exact ih (i + 1) l' h.next
    · rw [if_neg fun hmore => hskips hmore.1]
      rw [Position.pass_of_not_skips (Bool.not_eq_true _ ▸ hskips)]
      exact lexemeAt_apply h.lexeme w

theorem peekPast_apply (mode : Skip) {w : Walk} {c : Cursor} (h : w.Shows ls c) :
    peekPast ls mode w = some (.ok (c.peekPast mode), w) := by
  change peekPastFrom ls mode w.index w = _
  rw [h.index]
  exact peekPastFrom_apply mode h.position w

theorem imitates_peekPast (mode : Skip) :
    Imitates ls n inFunction (peekPast ls mode) (Parser.peekPast mode) :=
  fun w _ hlevel hshows => ⟨w, peekPast_apply mode hshows, hlevel, hshows⟩

/-! ## Marks, imitated -/

theorem imitates_mark : Imitates ls n inFunction mark Parser.mark := by
  intro w c hlevel hshows
  refine ⟨_, rfl, ⟨hlevel.nesting, hlevel.inFunction, hlevel.deepest⟩, ?_⟩
  refine ⟨hshows.index, hshows.position, ?_, List.forall_mem_cons.mpr ⟨hshows.position, hshows.checkpoints⟩⟩
  exact congrArg₂ List.cons hshows.index hshows.marks

theorem imitates_commit : Imitates ls n inFunction commit Parser.commit := by
  intro w c hlevel hshows
  refine ⟨_, rfl, ⟨hlevel.nesting, hlevel.inFunction, hlevel.deepest⟩, ?_⟩
  refine ⟨hshows.index, hshows.position, ?_, fun p hp => hshows.checkpoints p (List.mem_of_mem_tail hp)⟩
  change w.marks.tail = c.checkpoints.tail.map Position.index
  rw [hshows.marks, List.map_tail]

theorem imitates_rollback : Imitates ls n inFunction rollback Parser.rollback := by
  rintro ⟨i, marks, f, nesting, deepest⟩ ⟨position, checkpoints⟩ hlevel hshows
  obtain rfl : marks = checkpoints.map Position.index := hshows.marks
  cases checkpoints with
  | nil => exact ⟨_, rfl, hlevel, hshows⟩
  | cons p ps =>
    obtain ⟨hp, hps⟩ := List.forall_mem_cons.mp hshows.checkpoints
    exact ⟨_, rfl, ⟨hlevel.nesting, hlevel.inFunction, hlevel.deepest⟩, rfl, hp, rfl, hps⟩

theorem tryTakeIf_steps (wanted : Lexeme → Bool) (mode : Skip) :
    Parser.tryTakeIf wanted mode = (do
      Parser.mark
      Parser.skip mode
      let l ← Parser.peek
      if wanted l then
        Parser.commit
        let l ← Parser.advance
        pure (some l)
      else
        Parser.rollback
        pure none) := by
  funext c
  unfold Parser.tryTakeIf
  rw [Cursor.tryTakeIf_eq, Parser.bind_apply]
  dsimp only [Parser.mark]
  rw [Parser.bind_apply]
  dsimp only [Parser.skip]
  rw [Parser.bind_apply]
  dsimp only [Parser.peek]
  by_cases hwanted : wanted (c.peekPast mode)
  · have hpeek : wanted (c.mark.skipWhile mode.skips).peek := hwanted
    rw [if_pos hwanted, if_pos hpeek]
    rfl
  · have hpeek : ¬ wanted (c.mark.skipWhile mode.skips).peek := hwanted
    rw [if_neg hwanted, if_neg hpeek]
    rfl

theorem imitates_tryTakeIf (hends : Ends ls) (wanted : Lexeme → Bool) (mode : Skip) :
    Imitates ls n inFunction (tryTakeIf ls wanted mode) (Parser.tryTakeIf wanted mode) := by
  rw [tryTakeIf_steps]
  apply imitates_bind imitates_mark
  intro _
  apply imitates_bind (imitates_skip hends mode)
  intro _
  apply imitates_bind imitates_peek
  intro l
  split
  · apply imitates_bind imitates_commit
    intro _
    exact imitates_bind imitates_advance fun l => imitates_pure (some l)
  · exact imitates_bind imitates_rollback fun _ => imitates_pure none

theorem gives_tryTakeIf (wanted : Lexeme → Bool) (mode : Skip) :
    Parser.GivesSome (Parser.tryTakeIf wanted mode) fun l => wanted l := by
  intro c o c' h l hl
  unfold Parser.tryTakeIf at h
  rw [Cursor.tryTakeIf_eq] at h
  split at h
  · rename_i hwanted
    cases h
    cases hl
    exact hwanted
  · cases h
    exact nomatch hl

theorem imitates_tryTake (hends : Ends ls) (kind : LexemeKind) (mode : Skip) :
    Imitates ls n inFunction (tryTake ls kind mode) (Parser.tryTake kind mode) :=
  imitates_tryTakeIf hends (fun l => l.kind == kind) mode

theorem take_steps (kind : LexemeKind) (mode : Skip) :
    Parser.take kind mode = (do
      match ← Parser.tryTake kind mode with
      | some l => pure l
      | none => Parser.fail (.expected kind) (← Parser.peekPast mode)) := by
  funext c
  rw [Parser.bind_apply]
  unfold Parser.take Cursor.take Parser.tryTake
  by_cases hkind : (c.peekPast mode).kind == kind
  · have htake : c.tryTake kind mode = (some (c.peekPast mode), (c.skipWhile mode.skips).advance) :=
      if_pos hkind
    rw [htake]
    rfl
  · have htake : c.tryTake kind mode = (none, c) := if_neg hkind
    rw [htake]
    rfl

theorem imitates_take (hends : Ends ls) (kind : LexemeKind) (mode : Skip) :
    Imitates ls n inFunction (take ls kind mode) (Parser.take kind mode) := by
  rw [take_steps]
  apply imitates_bind (imitates_tryTake hends kind mode)
  rintro (_ | l)
  · exact imitates_bind (imitates_peekPast mode) fun l => imitates_fail (.expected kind) l
  · exact imitates_pure l

end Walker

end CommandScript
