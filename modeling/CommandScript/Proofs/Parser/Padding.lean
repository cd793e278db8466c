import CommandScript.Proofs.Parser.Likeness

/-!
Parsing a source in which separators stand behind comments, and one in which they do not. Wherever the
parser takes a comment it is at the end of a statement, and what it does next is to pass over separators;
so those behind the comment make no difference, neither to the script nor to the fault. Nowhere else does
it pass over a comment, and so it comes to the separators behind one in no other way.
-/

namespace CommandScript
set_option autoImplicit false

/-! ## Padded lexemes -/

theorem Lexeme.Same.refl (l : Lexeme) : l.Same l := ⟨rfl, rfl, fun _ => rfl, fun _ => rfl, fun _ => rfl⟩

/-- The same lexemes up to the ends of both sources, but that in the first one there may be separators
behind a comment. -/
inductive Padded : List Lexeme → List Lexeme → Prop where
  | last {l m : Lexeme} : l.kind = .endOfFile → l.Same m → Padded [l] [m]
  | cons {l m : Lexeme} {ls ms : List Lexeme} : l.kind ≠ .endOfFile → l.Same m → Padded ls ms →
      Padded (l :: ls) (m :: ms)
  | comment {l m : Lexeme} {gap ls ms : List Lexeme} : l.kind = .comment → l.Same m →
      (∀ x ∈ gap, x.kind.isSeparator) → Padded ls ms → Padded (l :: (gap ++ ls)) (m :: ms)

/-- The first source has some separators more than the second one. -/
def Gapped (ls ms : List Lexeme) : Prop :=
  ∃ gap rest, ls = gap ++ rest ∧ (∀ x ∈ gap, x.kind.isSeparator) ∧ Padded rest ms

namespace Padded

variable {l m : Lexeme} {ls ms : List Lexeme}

theorem gapped (h : Padded ls ms) : Gapped ls ms := ⟨[], ls, rfl, nofun, h⟩

theorem ends (h : Padded ls ms) : Ends ls ∧ Ends ms := by
  induction h with
  | @last l m hend hsame => exact ⟨⟨l, rfl, hend⟩, ⟨m, rfl, hsame.kind.trans hend⟩⟩
  | cons _ _ _ ih => exact ⟨ih.1.cons, ih.2.cons⟩
  | @comment l m gap ls ms _ _ _ _ ih => exact ⟨(ih.1.append gap).cons, ih.2.cons⟩

theorem head (h : Padded (l :: ls) (m :: ms)) : l.Same m := by
  cases h with
  | last _ hsame => exact hsame
  | cons _ hsame _ => exact hsame
  | comment _ hsame _ _ => exact hsame

theorem tail (h : Padded (l :: ls) (m :: ms)) (hend : l.kind ≠ .endOfFile)
    (hcomment : l.kind ≠ .comment) : Padded ls ms := by
  cases h with
  | last hlast _ => exact absurd hlast hend
  | cons _ _ hrest => exact hrest
  | comment hkind _ _ _ => exact absurd hkind hcomment

theorem behind (h : Padded (l :: ls) (m :: ms)) (hend : l.kind ≠ .endOfFile) : Gapped ls ms := by
  cases h with
  | last hlast _ => exact absurd hlast hend
  | cons _ _ hrest => exact hrest.gapped
  | comment _ _ hgap hrest => exact ⟨_, _, rfl, hgap, hrest⟩

theorem append {before : List Lexeme} (h : Padded ls ms) (hbefore : ∀ x ∈ before, x.kind ≠ .endOfFile) :
    Padded (before ++ ls) (before ++ ms) := by
  induction before with
  | nil => exact h
  | cons x before ih =>
    obtain ⟨hx, hbefore⟩ := List.forall_mem_cons.mp hbefore
    exact .cons hx (.refl x) (ih hbefore)

/-- Alike lexemes have no more in the first source, if no comment is missing in the second one. -/
theorem of_alike (h : Alike True ls ms) : Padded ls ms := by
  induction h with
  | last hend hsame => exact .last hend hsame
  | cons hend hsame _ ih => exact .cons hend hsame ih
  | comment hstrict => exact absurd trivial hstrict

end Padded

theorem Gapped.ends {ls ms : List Lexeme} (h : Gapped ls ms) : Ends ls ∧ Ends ms := by
  obtain ⟨gap, rest, rfl, -, hrest⟩ := h
  exact ⟨hrest.ends.1.append gap, hrest.ends.2⟩

/-! ## Positions -/

namespace Position

variable {p q : Position} {skips : LexemeKind → Bool}

/-- The lexemes ahead are the same, but for separators behind comments. -/
def Padded (p q : Position) : Prop := CommandScript.Padded p.ahead q.ahead

/-- The first position has some separators more ahead. -/
def Gapped (p q : Position) : Prop := CommandScript.Gapped p.ahead q.ahead

theorem Padded.head (h : p.Padded q) : p.lexeme.Same q.lexeme := CommandScript.Padded.head h

theorem Padded.next (h : p.Padded q) (hend : p.lexeme.kind ≠ .endOfFile)
    (hcomment : p.lexeme.kind ≠ .comment) : p.next.Padded q.next := by
  have hrest := CommandScript.Padded.tail h hend hcomment
  unfold Padded
  rwa [ahead_next rfl hrest.ends.1.ne_nil, ahead_next rfl hrest.ends.2.ne_nil]

theorem Padded.behind (h : p.Padded q) (hend : p.lexeme.kind ≠ .endOfFile) :
    p.next.Gapped q.next := by
  have hrest := CommandScript.Padded.behind h hend
  unfold Gapped
  rwa [ahead_next rfl hrest.ends.1.ne_nil, ahead_next rfl hrest.ends.2.ne_nil]

theorem Padded.pass_of_not_skips (h : p.Padded q) (hskips : skips p.lexeme.kind = false) :
    (p.pass skips).Padded (q.pass skips) := by
  rw [Position.pass_of_not_skips hskips,
    Position.pass_of_not_skips (by rw [h.head.kind, hskips])]
  exact h

/-- What skips separators behind a comment whenever it skips the comment comes to the same lexeme in
both sources. -/
theorem Padded.pass (h : p.Padded q) (hend : skips .endOfFile = false)
    (hcomment : skips .comment → ∀ kind : LexemeKind, kind.isSeparator → skips kind) :
    (p.pass skips).Padded (q.pass skips) := by
  generalize hp : p.ahead = ls
  generalize hq : q.ahead = ms
  have hpadded : CommandScript.Padded ls ms := hp ▸ hq ▸ h
  induction hpadded generalizing p q with
  | last hlast _ =>
    obtain ⟨rfl, -⟩ := List.cons.inj hp
    exact h.pass_of_not_skips (hlast ▸ hend)
  | @cons l m ls ms hkind hsame hrest ih =>
    obtain ⟨hl, -⟩ := List.cons.inj hp
    obtain ⟨hls, hms⟩ := hrest.ends
    by_cases hskips : skips l.kind
    · rw [pass_of_skips hp hls.ne_nil hskips, pass_of_skips hq hms.ne_nil (hsame.kind ▸ hskips)]
      have hp' := ahead_next hp hls.ne_nil
      have hq' := ahead_next hq hms.ne_nil
      exact ih (by unfold Padded; rwa [hp', hq']) hp' hq'
    · rw [Bool.not_eq_true, ← hl] at hskips
      exact h.pass_of_not_skips hskips
  | @comment l m gap ls ms hkind hsame hgap hrest ih =>
    obtain ⟨hl, -⟩ := List.cons.inj hp
    obtain ⟨hls, hms⟩ := hrest.ends
    by_cases hskips : skips .comment
    · have hall : ∀ x ∈ l :: gap, skips x.kind :=
        List.forall_mem_cons.mpr ⟨hkind ▸ hskips, fun x hx => hcomment hskips _ (hgap x hx)⟩
      have hahead : p.ahead = (l :: gap) ++ ls := hp
      obtain ⟨p', hp', hpass⟩ := exists_pass_eq hahead hall hls.ne_nil
      have hq' := ahead_next hq hms.ne_nil
      rw [hpass, pass_of_skips hq hms.ne_nil (by rw [hsame.kind, hkind, hskips])]
      exact ih (by unfold Padded; rwa [hp', hq']) hp' hq'
    · rw [Bool.not_eq_true, ← hkind, ← hl] at hskips
      exact h.pass_of_not_skips hskips

/-- The separators that the first source has more are passed over. -/
theorem Gapped.pass (h : p.Gapped q) :
    (p.pass LexemeKind.isSeparator).Padded (q.pass LexemeKind.isSeparator) := by
  obtain ⟨gap, rest, hp, hgap, hrest⟩ := h
  obtain ⟨p', hp', hpass⟩ := exists_pass_eq hp hgap hrest.ends.1.ne_nil
  have hpadded : p'.Padded q := by
    unfold Padded
    rwa [hp']
  rw [hpass]
  exact hpadded.pass rfl fun _ _ hkind => hkind

end Position

/-! ## Cursors -/

namespace Cursor

variable {c d : Cursor}

/-- The lexemes ahead and behind each mark are the same, but for separators behind comments. -/
abbrev Padded (c d : Cursor) : Prop := c.InStep Position.Padded d

/-- How the cursors stand behind a statement: the first one may have separators to pass over. -/
structure Gapped (c d : Cursor) : Prop where
  position : c.position.Gapped d.position
  checkpoints : List.Forall₂ Position.Padded c.checkpoints d.checkpoints

namespace Padded

theorem gapped (h : c.Padded d) : c.Gapped d := ⟨CommandScript.Padded.gapped h.position, h.checkpoints⟩

theorem peek (h : c.Padded d) : c.peek.Same d.peek := h.position.head

theorem advance (h : c.Padded d) (hidle : c.peek.kind.isIdle = false) :
    c.advance.Padded d.advance := by
  have hne (kind : LexemeKind) (hkind : kind.isIdle) : c.peek.kind ≠ kind := by
    rintro rfl
    exact absurd hkind (Bool.eq_false_iff.mp hidle)
  exact ⟨h.position.next (hne _ rfl) (hne _ rfl), h.checkpoints⟩

theorem behind (h : c.Padded d) (hend : c.peek.kind ≠ .endOfFile) : c.advance.Gapped d.advance :=
  ⟨h.position.behind hend, h.checkpoints⟩

theorem skip (h : c.Padded d) (mode : Skip) :
    (c.skipWhile mode.skips).Padded (d.skipWhile mode.skips) :=
  ⟨h.position.pass (by cases mode <;> rfl) (by cases mode <;> nofun), h.checkpoints⟩

end Padded

theorem Gapped.closed (h : c.Gapped d) : c.Closed ∧ d.Closed := h.position.ends

theorem Gapped.separators (h : c.Gapped d) :
    (c.skipWhile LexemeKind.isSeparator).Padded (d.skipWhile LexemeKind.isSeparator) :=
  ⟨h.position.pass, h.checkpoints⟩

end Cursor

/-! ## Parsing padded lexemes -/

namespace Parser

variable {c d : Cursor}

theorem gapped_terminator (h : c.Padded d) :
    Agree True FaultAlike id Cursor.Gapped (terminator c) (terminator d) := by
  have hskip := h.skip .whitespace
  rw [terminator_apply, terminator_apply]
  generalize c.skipWhile Skip.whitespace.skips = c at hskip ⊢
  generalize d.skipWhile Skip.whitespace.skips = d at hskip ⊢
  dsimp only
  rw [hskip.peek.kind]
  cases hl : c.peek.kind with
  | semicolon | newLine | comment => exact ⟨d.advance, rfl, hskip.behind (by rw [hl]; decide)⟩
  | endOfFile | rightBrace => exact ⟨d, rfl, hskip.gapped⟩
  | _ => exact fun _ => ⟨_, rfl, rfl, hskip.peek.line⟩

/-- A source with separators behind its comments, and one without them. -/
def padding : Pairing :=
  { likeness True with
    beside := Cursor.Padded
    past := Cursor.Gapped
    peek := fun h => .inl h.peek
    advance := fun h _ hidle => h.advance hidle
    skip := fun h => h.skip .whitespace
    search := fun h => .inl (h.skip .layout)
    mark := fun h => h.mark
    commit := fun h => h.commit
    rollback := fun h => h.rollback
    past_of_beside := fun h => h.gapped
    closed := fun h => h.closed
    terminator := gapped_terminator
    separators := fun h => .inl ⟨h.separators, h.separators.peek⟩ }

end Parser

namespace Script

/-- The same script, or the same fault on the same line. -/
def SameOutcome : Except ParseError Script → Except ParseError Script → Prop
  | .ok script, r => r = .ok script
  | .error e, r => ∃ e', r = .error e' ∧ e'.fault = e.fault ∧ e'.place.line = e.place.line

/-- Separators behind comments make no difference to a script. -/
theorem ofLexemes_of_padded {ls ms : List Lexeme} (h : Padded ls ms) :
    SameOutcome (ofLexemes ls) (ofLexemes ms) := by
  have hpadded : (Cursor.ofLexemes ls).Padded (Cursor.ofLexemes ms) :=
    .ofLexemes h.ends.1 h.ends.2 h
  have hscript := Parser.script_of_past (P := Parser.padding)
    (fun h => ⟨h.separators, h.separators.peek⟩) hpadded.gapped
  unfold ofLexemes
  rcases hr : (Parser.script (Cursor.ofLexemes ls)).map Prod.fst with e | script
  · rw [hr] at hscript
    exact hscript trivial
  · rw [hr] at hscript
    exact hscript.trans (congrArg Except.ok (List.map_id script))

end Script

end CommandScript
