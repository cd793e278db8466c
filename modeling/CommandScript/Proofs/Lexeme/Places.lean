import Mathlib.Data.List.Chain
import Mathlib.Data.List.Induction
import CommandScript.Proofs.Lexeme.Placed

/-!
The places of lexemes. Lexing loses nothing: the contents of the lexemes make up the source. Each
lexeme begins where the text before it ends and ends where its own text ends, and a place is the
number of line feeds passed and the number of characters behind the last of them. So the lexemes
follow each other without a gap, and each begins behind the beginnings of all before it.
-/

namespace CommandScript
set_option autoImplicit false

/-! ## Places -/

namespace Location

/-- The place behind the characters of a source that are passed already. -/
def behind (passed : List Char) : Location :=
  ⟨passed.count '\n' + 1, (passed.reverse.takeWhile (· ≠ '\n')).length + 1⟩

/-- On an earlier line, or on the same line in an earlier column. -/
def Before (p q : Location) : Prop := p.line < q.line ∨ p.line = q.line ∧ p.column < q.column

theorem foldl_after_start (cs : List Char) : cs.foldl after start = behind cs := by
  induction cs using List.reverseRecOn with
  | nil => rfl
  | append_singleton cs c ih =>
    rw [List.foldl_append, List.foldl_cons, List.foldl_nil, ih]
    by_cases h : c = '\n'
    · subst h
      simp [behind, after]
    · simp [behind, after, h]

theorem Before.trans {p q r : Location} (h : p.Before q) (h' : q.Before r) : p.Before r := by
  unfold Before at *
  omega

theorem before_after (p : Location) (c : Char) : p.Before (p.after c) := by
  unfold Before after
  split
  · left
    show p.line < p.line + 1
    omega
  · right
    show p.line = p.line ∧ p.column < p.column + 1
    omega

theorem before_foldl_after (p : Location) (c : Char) (cs : List Char) :
    p.Before ((c :: cs).foldl after p) := by
  induction cs generalizing p c with
  | nil => exact before_after p c
  | cons d cs ih => exact (before_after p c).trans (ih (p.after c) d)

theorem before_afterText (p : Location) {text : String} (h : text ≠ "") :
    p.Before (p.afterText text) := by
  unfold afterText
  cases hlist : text.toList with
  | nil => exact absurd (String.toList_eq_nil_iff.mp hlist) h
  | cons c cs => exact before_foldl_after p c cs

end Location

/-! ## Lexemes one after the other -/

/-- The text that the lexemes cover. -/
def textOf (ls : List Lexeme) : List Char := ls.flatMap (·.content.toList)

@[simp] theorem textOf_singleton (l : Lexeme) : textOf [l] = l.content.toList := by simp [textOf]

@[simp] theorem textOf_append (ls ms : List Lexeme) : textOf (ls ++ ms) = textOf ls ++ textOf ms :=
  List.flatMap_append

/-- A lexeme begins behind all that is placed before it, and ends behind its own content too. -/
theorem place_append_cons {here : Location} {ts : List Token} {before behind : List Lexeme}
    {l : Lexeme} (h : place here ts = before ++ l :: behind) :
    l.start = (textOf before).foldl Location.after here ∧
      l.stop = (textOf (before ++ [l])).foldl Location.after here := by
  induction ts generalizing here before with
  | nil =>
    rw [place_nil, List.singleton_eq_append_iff] at h
    obtain ⟨rfl, h⟩ | ⟨-, h⟩ := h
    · obtain ⟨rfl, -⟩ := List.cons.inj h
      exact ⟨rfl, rfl⟩
    · exact absurd h (List.cons_ne_nil _ _)
  | cons t ts ih =>
    rw [place_cons] at h
    cases before with
    | nil =>
      obtain ⟨rfl, -⟩ := List.cons.inj h
      refine ⟨rfl, ?_⟩
      rw [List.nil_append, textOf_singleton]
      rfl
    | cons l' before =>
      obtain ⟨rfl, hrest⟩ := List.cons.inj h
      obtain ⟨hstart, hstop⟩ := ih hrest
      have hfirst (cs : List Char) :
          cs.foldl Location.after (t.placed here).stop =
            (t.content.toList ++ cs).foldl Location.after here :=
        (List.foldl_append ..).symm
      rw [hfirst] at hstart hstop
      exact ⟨hstart, hstop⟩

theorem start_of_mem_head?_place (here : Location) (ts : List Token) :
    ∀ l ∈ (place here ts).head?, l.start = here := by
  cases ts <;> simp [Token.placed, Lexeme.endOfFile]

theorem isChain_place (here : Location) (ts : List Token) :
    (place here ts).IsChain fun l l' => l'.start = l.stop := by
  induction ts generalizing here with
  | nil => exact .singleton _
  | cons t ts ih =>
    rw [place_cons, List.isChain_cons]
    exact ⟨start_of_mem_head?_place _ ts, ih _⟩

theorem before_of_mem_place {here : Location} {ts : List Token} (hts : ∀ t ∈ ts, t.content ≠ "") :
    ∀ l ∈ place here ts, l.start = here ∨ here.Before l.start := by
  induction ts generalizing here with
  | nil => simp [Lexeme.endOfFile]
  | cons t ts ih =>
    rw [List.forall_mem_cons] at hts
    have hstop : here.Before (t.placed here).stop := Location.before_afterText here hts.1
    rw [place_cons, List.forall_mem_cons]
    refine ⟨.inl rfl, fun l hl => .inr ?_⟩
    rcases ih hts.2 l hl with h | h
    · rw [h]
      exact hstop
    · exact hstop.trans h

theorem pairwise_before_place {here : Location} {ts : List Token}
    (hts : ∀ t ∈ ts, t.content ≠ "") :
    (place here ts).Pairwise fun l l' => l.start.Before l'.start := by
  induction ts generalizing here with
  | nil => exact List.pairwise_singleton _ _
  | cons t ts ih =>
    rw [List.forall_mem_cons] at hts
    have hstop : here.Before (t.placed here).stop := Location.before_afterText here hts.1
    rw [place_cons, List.pairwise_cons]
    refine ⟨fun l hl => ?_, ih hts.2⟩
    rcases before_of_mem_place hts.2 l hl with h | h
    · rw [h]
      exact hstop
    · exact hstop.trans h

/-! ## The lexemes of a source -/

@[simp] theorem textOf_lexemes (source : String) : textOf (lexemes source) = source.toList := by
  obtain ⟨ls, stop, hlexemes, htokens, -⟩ := lexemes_eq source
  have hcontent := tokens_flatMap_content source.toList
  rw [← htokens, List.flatMap_map] at hcontent
  rw [hlexemes, textOf_append]
  exact (List.append_nil _).trans hcontent

theorem content_ne_empty_of_mem_tokens (cs : List Char) : ∀ t ∈ tokens cs, t.content ≠ "" := by
  induction cs using tokens_induction with
  | nil => simp
  | cons c cs ih =>
    rw [tokens_cons, List.forall_mem_cons]
    refine ⟨fun hempty => ?_, ih⟩
    have hlist := congrArg String.toList hempty
    rw [String.toList_ofList] at hlist
    exact List.cons_ne_nil _ _ hlist

/-- The lexemes of a source are its parts, none of them empty, and the end behind them. Each stands
between the places that lie behind the text before it and behind its own text. -/
theorem lexemes_places (source : String) :
    (∃ ls stop, lexemes source = ls ++ [Lexeme.endOfFile stop] ∧ textOf ls = source.toList ∧
      ∀ l ∈ ls, l.kind ≠ .endOfFile ∧ l.content ≠ "") ∧
    (∀ before l behind, lexemes source = before ++ l :: behind →
      l.start = Location.behind (textOf before) ∧
        l.stop = Location.behind (textOf (before ++ [l]))) ∧
    (∀ l ∈ (lexemes source).head?, l.start = ⟨1, 1⟩) ∧
    (lexemes source).IsChain (fun l l' => l'.start = l.stop) ∧
    (lexemes source).Pairwise fun l l' => l.start.Before l'.start := by
  refine ⟨?_, fun before l behind h => ?_, ?_, ?_, ?_⟩
  · obtain ⟨ls, stop, hlexemes, htokens, hkinds⟩ := lexemes_eq source
    refine ⟨ls, stop, hlexemes, ?_, fun l hl => ⟨hkinds l hl, ?_⟩⟩
    · have hcontent := tokens_flatMap_content source.toList
      rw [← htokens, List.flatMap_map] at hcontent
      exact hcontent
    · have htoken : l.token ∈ tokens source.toList := by
        rw [← htokens]
        exact List.mem_map_of_mem hl
      exact content_ne_empty_of_mem_tokens source.toList l.token htoken
  · rw [← Location.foldl_after_start, ← Location.foldl_after_start]
    exact place_append_cons h
  · exact start_of_mem_head?_place _ _
  · exact isChain_place _ _
  · exact pairwise_before_place (content_ne_empty_of_mem_tokens _)

example : (lexemes "a\r\n b").map Lexeme.start = [⟨1, 1⟩, ⟨1, 2⟩, ⟨2, 1⟩, ⟨2, 2⟩, ⟨2, 3⟩] := by
  decide +kernel

end CommandScript
