import CommandScript.Proofs.Lexeme.LineEnds

/-!
Sources without their comments. A comment reaches to the end of its line, and what stands before it could
not go on over a line feed either. So a source without carriage returns has the other lexemes without its
comments as with them, and nothing but the end of a line moves.
-/

namespace CommandScript
set_option autoImplicit false

/-! ## Tokens -/

/-- The text that the tokens cover. -/
def textOfTokens (ts : List Token) : List Char := ts.flatMap (·.content.toList)

/-- The tokens without the comments. -/
def dropComments (ts : List Token) : List Token := ts.filter (·.kind ≠ .comment)

section

variable {t : Token} {ts : List Token} {cs rest : List Char}

theorem dropComments_cons_comment (ts : List Token) (h : t.kind = .comment) :
    dropComments (t :: ts) = dropComments ts :=
  List.filter_cons_of_neg (by simp [h])

theorem dropComments_cons (ts : List Token) (h : t.kind ≠ .comment) :
    dropComments (t :: ts) = t :: dropComments ts :=
  List.filter_cons_of_pos (by simp [h])

@[simp] theorem textOfTokens_cons (t : Token) (ts : List Token) :
    textOfTokens (t :: ts) = t.content.toList ++ textOfTokens ts :=
  List.flatMap_cons ..

/-- A text that does not begin with a comment begins as before without its comments. -/
theorem Tokenises.head?_dropComments (h : Tokenises ts cs)
    (hfirst : ∀ t ∈ ts.head?, t.kind ≠ .comment) :
    (textOfTokens (dropComments ts)).head? = cs.head? := by
  cases h with
  | nil => rfl
  | @cons t ts rest hne hfits hts =>
    have hcontent : t.content.toList ≠ [] := fun h => hne (String.toList_eq_nil_iff.mp h)
    rw [dropComments_cons ts (hfirst t rfl), textOfTokens_cons, List.head?_append_of_ne_nil _ hcontent,
      List.head?_append_of_ne_nil _ hcontent]

theorem Token.FitsBefore.commentBefore (h : t.FitsBefore rest) (hkind : t.kind = .comment) :
    CommentBefore t.content.toList rest := by
  obtain ⟨kind, content⟩ := t
  obtain rfl : kind = .comment := hkind
  exact h

theorem AtLineEnd.ne_comment (h : AtLineEnd ts) : ∀ t ∈ ts.head?, t.kind ≠ .comment := by
  intro t ht hcomment
  exact nomatch hcomment.symm.trans (h t ht)

/-- Behind a comment the line ends, as there is no carriage return. -/
theorem Tokenises.atLineEnd_of_comment (h : Tokenises ts rest) (hreturn : '\r' ∉ rest)
    (hcomment : CommentBefore cs rest) : AtLineEnd ts := by
  cases rest with
  | nil =>
    obtain rfl : ts = [] := h.eq_tokens.trans tokens_nil
    exact nofun
  | cons c rest =>
    refine h.atLineEnd ?_
    rcases hcomment.stops c rfl with rfl | rfl
    · rfl
    · exact absurd List.mem_cons_self hreturn

/-- Without its comments a text begins as before or with a line feed. -/
theorem Tokenises.beginsLike_dropComments (h : Tokenises ts cs) (hreturn : '\r' ∉ cs) :
    BeginsLike cs (textOfTokens (dropComments ts)) := by
  cases h with
  | nil => exact nofun
  | @cons t ts rest hne hfits hts =>
    have hrest : '\r' ∉ rest := fun hmem => hreturn (List.mem_append_right _ hmem)
    by_cases hkind : t.kind = .comment
    · have hcomment := hfits.commentBefore hkind
      have hends := hts.atLineEnd_of_comment hrest hcomment
      rw [dropComments_cons_comment ts hkind]
      intro c hc
      rw [hts.head?_dropComments hends.ne_comment] at hc
      rcases hcomment.stops c hc with rfl | rfl
      · exact .inr rfl
      · exact absurd (List.mem_of_mem_head? hc) hrest
    · intro c hc
      rw [(Tokenises.cons hne hfits hts).head?_dropComments] at hc
      · exact .inl hc
      · intro u hu
        rwa [← Option.some.inj hu]

/-- Without its comments a text has the tokens without the comments. -/
theorem Tokenises.withoutComments (h : Tokenises ts cs) (hreturn : '\r' ∉ cs) :
    Tokenises (dropComments ts) (textOfTokens (dropComments ts)) ∧
      TokensAlike False ts (dropComments ts) := by
  induction h with
  | nil => exact ⟨.nil, .nil⟩
  | @cons t ts rest hne hfits hts ih =>
    have hrest : '\r' ∉ rest := fun hmem => hreturn (List.mem_append_right _ hmem)
    obtain ⟨htokens, halike⟩ := ih hrest
    by_cases hkind : t.kind = .comment
    · have hcomment := hfits.commentBefore hkind
      rw [dropComments_cons_comment ts hkind]
      refine ⟨htokens, .comment not_false hkind (fun hfeed => ?_) ?_ halike⟩
      · exact (hcomment.all _ hfeed).1 rfl
      · exact hts.atLineEnd_of_comment hrest hcomment
    · rw [dropComments_cons ts hkind, textOfTokens_cons]
      refine ⟨.cons hne (hfits.of_beginsLike (hts.beginsLike_dropComments hrest) ?_) htokens,
        halike.self hfits⟩
      rintro rfl
      exact absurd List.mem_cons_self hreturn

/-- Carriage returns stay paired without the comments. -/
theorem Tokenises.returnsPaired_dropComments (h : Tokenises ts cs) (hpaired : ReturnsPaired cs) :
    ReturnsPaired (textOfTokens (dropComments ts)) := by
  induction h with
  | nil => exact returnsPaired_nil
  | @cons t ts rest hne hfits hts ih =>
    have hrest := ih hpaired.of_append
    by_cases hkind : t.kind = .comment
    · rwa [dropComments_cons_comment ts hkind]
    · rw [dropComments_cons ts hkind, textOfTokens_cons]
      refine hpaired.append hrest fun hhead => ?_
      rw [hts.head?_dropComments (hts.atLineEnd hhead).ne_comment, hhead]

/-- Carriage returns and comments can be left out in any order. -/
theorem dropReturns_textOfTokens (ts : List Token) :
    dropReturns (textOfTokens (dropComments ts)) =
      textOfTokens (dropComments (ts.map Token.withoutReturns)) := by
  induction ts with
  | nil => rfl
  | cons t ts ih =>
    rw [List.map_cons]
    by_cases hkind : t.kind = .comment
    · have hkind' : t.withoutReturns.kind = .comment := hkind
      rw [dropComments_cons_comment ts hkind, dropComments_cons_comment _ hkind', ih]
    · have hkind' : t.withoutReturns.kind ≠ .comment := hkind
      have hcontent : dropReturns t.content.toList = t.withoutReturns.content.toList :=
        String.toList_ofList.symm
      rw [dropComments_cons ts hkind, dropComments_cons _ hkind', textOfTokens_cons,
        textOfTokens_cons, dropReturns_append, ih, hcontent]

end

/-! ## Sources -/

/-- The source without the text of its comments. -/
def withoutComments (source : String) : String :=
  String.ofList (textOf ((lexemes source).filter fun l => l.kind ≠ .comment))

theorem toList_withoutComments (source : String) :
    (withoutComments source).toList = textOfTokens (dropComments (tokens source.toList)) := by
  obtain ⟨ls, stop, hlexemes, htokens, -⟩ := lexemes_eq source
  have hend : textOf ([Lexeme.endOfFile stop].filter fun l => l.kind ≠ .comment) = [] := rfl
  unfold withoutComments textOfTokens dropComments
  rw [String.toList_ofList, hlexemes, ← htokens, List.filter_append, List.filter_map,
    List.flatMap_map, textOf, List.flatMap_append]
  exact (congrArg _ hend).trans (List.append_nil _)

/-- Without carriage returns in a source its comments make no difference to the lexemes, but that they
end a line. -/
theorem alike_withoutComments {source : String} (hreturn : '\r' ∉ source.toList) :
    Alike False (lexemes source) (lexemes (withoutComments source)) := by
  obtain ⟨htokens, halike⟩ := (tokenises_tokens source.toList).withoutComments hreturn
  rw [htokens.eq_tokens] at halike
  unfold lexemes
  rw [toList_withoutComments]
  exact halike.place rfl (.inl rfl)

theorem withoutReturns_withoutComments {source : String} (h : ReturnsPaired source.toList) :
    withoutReturns (withoutComments source) = withoutComments (withoutReturns source) := by
  have hlist : (withoutReturns source).toList = dropReturns source.toList := String.toList_ofList
  unfold withoutReturns at hlist ⊢
  rw [← String.ofList_toList (s := withoutComments (String.ofList (dropReturns source.toList))),
    toList_withoutComments, toList_withoutComments, dropReturns_textOfTokens, hlist,
    tokens_withoutReturns h]

theorem returnsPaired_withoutComments {source : String} (h : ReturnsPaired source.toList) :
    ReturnsPaired (withoutComments source).toList := by
  rw [toList_withoutComments]
  exact (tokenises_tokens source.toList).returnsPaired_dropComments h

end CommandScript
