import CommandScript.Proofs.Walker.Safety

/-!
Cursors under any operations, which come in any order and need not match their marks. By index they all
end, with a lexeme at each index, and they answer what the cursor answers. A take gets the first lexeme
that is not skipped, or it changes nothing; and a rollback brings back what was there at its mark, if the
operations in between match their own marks.
-/

namespace CommandScript
set_option autoImplicit false

/-! ## Operations -/

/-- What can be asked of a cursor or done to it. -/
inductive CursorOperation where
  | index
  | peek
  | peekPast (mode : Skip)
  | atEnd
  | advance
  | mark
  | commit
  | rollback
  | skip (mode : Skip)
  | tryTakeIf (wanted : Lexeme → Bool) (mode : Skip)
  | tryTake (kind : LexemeKind) (mode : Skip)
  | take (kind : LexemeKind) (mode : Skip)

/-- The walker with its fault as an answer, so that a walk goes on behind it. -/
def Walker.caught {α : Type} (p : Walker α) : Walker (Except ParseError α) := fun w =>
  (p w).map fun
    | (.ok a, w') => (.ok (.ok a), w')
    | (.error (.fault e), w') => (.ok (.error e), w')
    | (.error .outOfRange, w') => (.error .outOfRange, w')

namespace CursorOperation

def Answer : CursorOperation → Type
  | index => Nat
  | peek | peekPast _ | advance => Lexeme
  | atEnd => Bool
  | mark | commit | rollback | skip _ => Unit
  | tryTakeIf _ _ | tryTake _ _ => Option Lexeme
  | take _ _ => Except ParseError Lexeme

def apply : (op : CursorOperation) → Cursor → op.Answer × Cursor
  | index, c => (c.index, c)
  | peek, c => (c.peek, c)
  | peekPast mode, c => (c.peekPast mode, c)
  | atEnd, c => (c.atEnd, c)
  | advance, c => (c.peek, c.advance)
  | mark, c => ((), c.mark)
  | commit, c => ((), c.commit)
  | rollback, c => ((), c.rollback)
  | skip mode, c => ((), c.skipWhile mode.skips)
  | tryTakeIf wanted mode, c => c.tryTakeIf wanted mode
  | tryTake kind mode, c => c.tryTake kind mode
  | take kind mode, c => c.take kind mode

/-- The operation by index. -/
noncomputable def walk (ls : List Lexeme) : (op : CursorOperation) → Walker op.Answer
  | index => Walk.index <$> get
  | peek => Walker.peek ls
  | peekPast mode => Walker.peekPast ls mode
  | atEnd => (fun l => l.kind == .endOfFile) <$> Walker.peek ls
  | advance => Walker.advance ls
  | mark => Walker.mark
  | commit => Walker.commit
  | rollback => Walker.rollback
  | skip mode => Walker.skip ls mode
  | tryTakeIf wanted mode => Walker.tryTakeIf ls wanted mode
  | tryTake kind mode => Walker.tryTake ls kind mode
  | take kind mode => Walker.caught (Walker.take ls kind mode)

/-- The operations by index, in order. -/
noncomputable def walkAll (ls : List Lexeme) : List CursorOperation → Walker Unit
  | [] => pure ()
  | op :: ops => do
    let _ ← op.walk ls
    walkAll ls ops

/-- Whether the operation adds a mark or takes one away. -/
def isMarking : CursorOperation → Bool
  | mark | commit | rollback => true
  | _ => false

/-- Operations of which each mark is taken away by a commit or a rollback of its own. -/
inductive Nested : List CursorOperation → Prop where
  | nil : Nested []
  | plain {op : CursorOperation} {ops : List CursorOperation} :
      op.isMarking = false → Nested ops → Nested (op :: ops)
  | attempt {inner ops : List CursorOperation} {last : CursorOperation} :
      Nested inner → last = .commit ∨ last = .rollback → Nested ops →
        Nested (.mark :: (inner ++ last :: ops))

end CursorOperation

open CursorOperation

/-- The cursor after the operations, in order. -/
def Cursor.run (c : Cursor) (ops : List CursorOperation) : Cursor :=
  ops.foldl (fun c op => (op.apply c).2) c

namespace Cursor

theorem tryTake_eq (kind : LexemeKind) (mode : Skip) (c : Cursor) :
    c.tryTake kind mode =
      if (c.peekPast mode).kind = kind then
        (some (c.peekPast mode), (c.skipWhile mode.skips).advance)
      else (none, c) := by
  unfold tryTake
  rw [tryTakeIf_eq]
  simp only [beq_iff_eq]

theorem take_eq (kind : LexemeKind) (mode : Skip) (c : Cursor) :
    c.take kind mode =
      if (c.peekPast mode).kind = kind then
        (.ok (c.peekPast mode), (c.skipWhile mode.skips).advance)
      else (.error (.ofLexeme (.expected kind) (c.peekPast mode)), c) := by
  unfold take
  rw [tryTake_eq]
  by_cases hkind : (c.peekPast mode).kind = kind
  · rw [if_pos hkind, if_pos hkind]
  · rw [if_neg hkind, if_neg hkind]

end Cursor

/-! ## Operations by index -/

namespace Walker

variable {ls : List Lexeme} {n : Nat} {inFunction : Bool}

/-- Looking past what is skipped and skipping it are two loops, and both stop at the same lexeme. -/
theorem peek_apply_of_skip (hends : Ends ls) (mode : Skip) {w : Walk} {c : Cursor}
    (h : w.Shows ls c) :
    ∃ w', skip ls mode w = some (.ok (), w') ∧ peek ls w' = some (.ok (c.peekPast mode), w') :=
  ⟨_, (skip_apply hends mode h).1, peek_apply (shows_skip hends mode h)⟩

/-- A lexeme of another kind leaves the walk where it was, so that it can go on from there. -/
theorem imitates_caught_take (hends : Ends ls) (kind : LexemeKind) (mode : Skip) :
    Imitates ls n inFunction (caught (take ls kind mode)) fun c => .ok (c.take kind mode) := by
  intro w c hlevel hshows
  have htried : Meets ls n inFunction (tryTake ls kind mode w) (.ok (c.tryTake kind mode)) :=
    imitates_tryTake hends kind mode w c hlevel hshows
  change Meets ls n inFunction _ (.ok (c.take kind mode))
  rw [Cursor.tryTake_eq] at htried
  rw [Cursor.take_eq]
  by_cases hkind : (c.peekPast mode).kind = kind
  · rw [if_pos hkind] at htried ⊢
    obtain ⟨w', hwalk, hlevel', hshows'⟩ := htried
    refine ⟨w', ?_, hlevel', hshows'⟩
    unfold caught take
    rw [bind_apply, hwalk]
    rfl
  · rw [if_neg hkind] at htried ⊢
    obtain ⟨w', hwalk, hlevel', hshows'⟩ := htried
    refine ⟨w', ?_, hlevel', hshows'⟩
    unfold caught take
    rw [bind_apply, hwalk]
    dsimp only
    rw [bind_apply, peekPast_apply mode hshows']
    rfl

theorem imitates_walk (hends : Ends ls) (op : CursorOperation) :
    Imitates ls n inFunction (op.walk ls) fun c => .ok (op.apply c) := by
  cases op with
  | index =>
    intro w c hlevel hshows
    refine ⟨w, ?_, hlevel, hshows⟩
    change some (Except.ok w.index, w) = some (Except.ok c.position.index, w)
    rw [hshows.index]
  | peek => exact imitates_peek
  | peekPast mode => exact imitates_peekPast mode
  | atEnd => exact imitates_map imitates_peek
  | advance => exact imitates_advance
  | mark => exact imitates_mark
  | commit => exact imitates_commit
  | rollback => exact imitates_rollback
  | skip mode => exact imitates_skip hends mode
  | tryTakeIf wanted mode => exact imitates_tryTakeIf hends wanted mode
  | tryTake kind mode => exact imitates_tryTake hends kind mode
  | take kind mode => exact imitates_caught_take hends kind mode

theorem imitates_walkAll (hends : Ends ls) (ops : List CursorOperation) :
    Imitates ls n inFunction (walkAll ls ops) fun c => .ok ((), c.run ops) := by
  induction ops with
  | nil => exact imitates_pure ()
  | cons op ops ih => exact imitates_bind (imitates_walk hends op) fun _ => ih

end Walker

/-! ## Searches -/

/-- Number `i` is the first from `start` on whose lexeme is not skipped, and that lexeme is `l`. -/
structure Skip.FirstKept (mode : Skip) (ls : List Lexeme) (start i : Nat) (l : Lexeme) : Prop where
  le : start ≤ i
  lexeme : ls[i]? = some l
  kept : mode.skips l.kind = false
  skipped : ∀ j, start ≤ j → j < i → ∃ l', ls[j]? = some l' ∧ mode.skips l'.kind

namespace Cursor

variable {ls : List Lexeme} {c : Cursor} {w : Walk}

theorem firstKept (hends : Ends ls) (mode : Skip) (h : w.Shows ls c) :
    mode.FirstKept ls c.index (c.skipWhile mode.skips).index (c.peekPast mode) := by
  have hpass : (c.skipWhile mode.skips).position.In ls := (Walker.shows_skip hends mode h).position
  have hkept := skips_peek_skipWhile (Walker.skips_endOfFile mode) (h.position.closed hends)
  obtain ⟨skipped, hall, htook⟩ := took_skipWhile mode.skips c
  -- Both positions are in the list, so what lies between them is just what was skipped.
  have hindex : (c.skipWhile mode.skips).index = c.index + skipped.length := by
    have hlength := h.position.length.symm.trans hpass.length
    have htaken := congrArg List.length htook.ahead
    simp only [ahead, List.length_append, List.length_cons] at htaken
    unfold index
    omega
  refine ⟨by omega, hpass.lexeme, hkept, fun j hle hlt => ?_⟩
  have hj : j - c.index < skipped.length := by omega
  have hahead : ls.drop c.index = skipped ++ (c.skipWhile mode.skips).ahead :=
    h.position.trans htook.ahead
  refine ⟨skipped[j - c.index], ?_, hall _ (List.getElem_mem hj)⟩
  calc ls[j]? = (ls.drop c.index)[j - c.index]? := by rw [List.getElem?_drop, Nat.add_sub_cancel' hle]
    _ = skipped[j - c.index]? := by rw [hahead, List.getElem?_append_left hj]
    _ = some skipped[j - c.index] := List.getElem?_eq_getElem hj

/-- How the cursor takes lexemes in a mode. The first one from its index on that is not skipped has
number `i`; it is taken, and then the cursor is `past` it, or it is not and the cursor is as before. -/
structure Transacts (ls : List Lexeme) (mode : Skip) (c : Cursor) (i : Nat) (l : Lexeme)
    (past : Cursor) : Prop where
  found : mode.FirstKept ls c.index i l
  index : past.index = min (i + 1) (ls.length - 1)
  checkpoints : past.checkpoints = c.checkpoints
  peekPast : c.peekPast mode = l
  skip : (c.skipWhile mode.skips).peek = l
  tryTakeIf : ∀ wanted, c.tryTakeIf wanted mode = if wanted l then (some l, past) else (none, c)
  tryTake : ∀ kind, c.tryTake kind mode = if l.kind = kind then (some l, past) else (none, c)
  take : ∀ kind, c.take kind mode =
    if l.kind = kind then (.ok l, past) else (.error ⟨.expected kind, l.start, l.text⟩, c)

theorem transacts (hends : Ends ls) (mode : Skip) (h : w.Shows ls c) :
    c.Transacts ls mode (c.skipWhile mode.skips).index (c.peekPast mode)
      (c.skipWhile mode.skips).advance := by
  have hpass : (c.skipWhile mode.skips).position.In ls := (Walker.shows_skip hends mode h).position
  refine ⟨firstKept hends mode h, hpass.index_next, rfl, rfl, rfl, fun wanted => ?_,
    fun kind => ?_, fun kind => ?_⟩
  · exact tryTakeIf_eq wanted mode c
  · exact tryTake_eq kind mode c
  · exact take_eq kind mode c

/-! ## Marks -/

@[simp] theorem run_append (c : Cursor) (ops more : List CursorOperation) :
    c.run (ops ++ more) = (c.run ops).run more := List.foldl_append

theorem checkpoints_apply {op : CursorOperation} (h : op.isMarking = false) (c : Cursor) :
    (op.apply c).2.checkpoints = c.checkpoints := by
  cases op with
  | mark | commit | rollback => exact nomatch h
  | tryTakeIf wanted mode =>
    change (c.tryTakeIf wanted mode).2.checkpoints = _
    rw [tryTakeIf_eq]
    split <;> rfl
  | tryTake kind mode =>
    change (c.tryTake kind mode).2.checkpoints = _
    rw [tryTake_eq]
    split <;> rfl
  | take kind mode =>
    change (c.take kind mode).2.checkpoints = _
    rw [take_eq]
    split <;> rfl
  | _ => rfl

/-- Operations that match their own marks leave those of others as they are. -/
theorem checkpoints_run_of_nested {ops : List CursorOperation} (h : Nested ops) (c : Cursor) :
    (c.run ops).checkpoints = c.checkpoints := by
  induction h generalizing c with
  | nil => rfl
  | @plain op ops hop _ ih => exact (ih (op.apply c).2).trans (checkpoints_apply hop c)
  | @attempt inner ops last _ hlast _ ihinner ih =>
    have hinner : (c.mark.run inner).checkpoints = c.position :: c.checkpoints := ihinner c.mark
    have hrun : c.run (.mark :: (inner ++ last :: ops)) =
        (last.apply (c.mark.run inner)).2.run ops := run_append c.mark inner (last :: ops)
    rw [hrun, ih]
    -- The mark is the latest one again, so this is the one that the last operation takes away.
    rcases hlast with rfl | rfl
    · exact congrArg List.tail hinner
    · change (c.mark.run inner).rollback.checkpoints = c.checkpoints
      unfold rollback
      rw [hinner]

/-- A mark brings back what was there before it. -/
theorem run_attempt {inner : List CursorOperation} (h : Nested inner) (c : Cursor) :
    c.run (.mark :: (inner ++ [.rollback])) = c := by
  have hinner : (c.mark.run inner).checkpoints = c.position :: c.checkpoints :=
    checkpoints_run_of_nested h c.mark
  have hrun : c.run (.mark :: (inner ++ [.rollback])) = (c.mark.run inner).rollback :=
    run_append c.mark inner [.rollback]
  rw [hrun]
  unfold rollback
  rw [hinner]

/-! ## Transactions -/

/-- On lexemes that end with the end of a source a cursor is transactional after any operations. By index
they all end, with a lexeme at the index and at each mark, and so does any further one, with the answer
that the cursor gives. In each mode looking past what is skipped, and skipping it, comes to the first
lexeme that is not; a take gets that one and goes behind it, or it changes nothing. Between a mark and a
rollback operations that match their own marks leave nothing behind. -/
theorem operations_transactional {ls : List Lexeme} (hends : Ends ls) (ops : List CursorOperation) :
    let c := (ofLexemes ls).run ops
    ∃ w, walkAll ls ops Walk.start = some (.ok (), w) ∧ w.InRange ls ∧ w.Shows ls c ∧
      (∀ op : CursorOperation, ∃ w', op.walk ls w = some (.ok (op.apply c).1, w') ∧
        w'.InRange ls ∧ w'.Shows ls (op.apply c).2) ∧
      (∀ mode, ∃ i l past, c.Transacts ls mode i l past ∧
        Walker.peekPast ls mode w = some (.ok l, w) ∧
        ∃ w', Walker.skip ls mode w = some (.ok (), w') ∧ Walker.peek ls w' = some (.ok l, w')) ∧
      ∀ inner, Nested inner → c.run (.mark :: (inner ++ [.rollback])) = c ∧
        ∃ w', walkAll ls (.mark :: (inner ++ [.rollback])) w = some (.ok (), w') ∧
          w'.index = w.index ∧ w'.marks = w.marks := by
  intro c
  have hlevel : Walk.start.Level 0 false := ⟨rfl, rfl, Nat.zero_le _⟩
  obtain ⟨w, hwalk, hlevel', hshows⟩ := Walker.imitates_walkAll hends ops Walk.start (ofLexemes ls)
    hlevel (Walker.shows_start hends)
  refine ⟨w, hwalk, hshows.inRange, hshows, fun op => ?_, fun mode => ?_, fun inner h => ?_⟩
  · obtain ⟨w', hop, -, hshows'⟩ := Walker.imitates_walk hends op w c hlevel' hshows
    exact ⟨w', hop, hshows'.inRange, hshows'⟩
  · refine ⟨_, _, _, transacts hends mode hshows, Walker.peekPast_apply mode hshows, ?_⟩
    exact Walker.peek_apply_of_skip hends mode hshows
  · have hrun := run_attempt h c
    obtain ⟨w', hwalk', -, hshows'⟩ := Walker.imitates_walkAll hends
      (.mark :: (inner ++ [.rollback])) w c hlevel' hshows
    rw [hrun] at hshows'
    refine ⟨hrun, w', hwalk', ?_, ?_⟩
    · rw [hshows'.index, hshows.index]
    · rw [hshows'.marks, hshows.marks]

/-- The lexemes of two words in two lines. -/
def twoWords : List Lexeme :=
  [⟨.word, "a", ⟨1, 1⟩, ⟨1, 2⟩⟩, ⟨.whitespace, " ", ⟨1, 2⟩, ⟨1, 3⟩⟩, ⟨.newLine, "\n", ⟨1, 3⟩, ⟨2, 1⟩⟩,
    ⟨.word, "b", ⟨2, 1⟩, ⟨2, 2⟩⟩, ⟨.endOfFile, "", ⟨2, 2⟩, ⟨2, 2⟩⟩]

/-- The first two operations find no mark, and nothing takes the marks away that come after them. -/
def unmatched : List CursorOperation := [.rollback, .commit, .mark, .mark, .advance]

/-- A search on the first line is at fault, and one on both takes the second word. -/
theorem operations_transactional_unmatched :
    let c := (ofLexemes twoWords).run unmatched
    (∃ w, walkAll twoWords unmatched Walk.start = some (.ok (), w) ∧ w.index = 1 ∧ w.marks = [0, 0]) ∧
      c.take .word .whitespace = (.error ⟨.expected .word, ⟨1, 3⟩, "newline"⟩, c) ∧
      (∃ past, c.take .word .layout = (.ok ⟨.word, "b", ⟨2, 1⟩, ⟨2, 2⟩⟩, past) ∧ past.index = 4 ∧
        past.checkpoints = c.checkpoints) ∧
      Nested [.take .word .layout, .mark, .advance, .commit] ∧
      c.run [.mark, .take .word .layout, .mark, .advance, .commit, .rollback] = c := by
  intro c
  have hends : Ends twoWords := ⟨_, rfl, rfl⟩
  obtain ⟨w, hwalk, -, hshows, -, hsearch, hattempt⟩ := operations_transactional hends unmatched
  have hnested : Nested [.take .word .layout, .mark, .advance, .commit] :=
    .plain rfl (.attempt (.plain rfl .nil) (.inl rfl) .nil)
  refine ⟨⟨w, hwalk, hshows.index, hshows.marks⟩, ?_, ?_, hnested, (hattempt _ hnested).1⟩
  · obtain ⟨i, l, past, htransacts, -⟩ := hsearch .whitespace
    obtain rfl : _ = l := htransacts.peekPast
    exact htransacts.take .word
  · obtain ⟨i, l, past, htransacts, -⟩ := hsearch .layout
    obtain rfl : _ = l := htransacts.peekPast
    have htake := htransacts.take .word
    have hindex : past.index = 4 := (congrArg (fun r => r.2.index) htake).symm
    exact ⟨past, htake, hindex, htransacts.checkpoints⟩

end Cursor

end CommandScript
