import CommandScript.Expr.Chain

/-!
What an operator chain stands for, said without passes over it. A row is an operand with operators
behind it, each before an operand of its own. It is cut at the operators that add and subtract, the
pieces are folded from the left, and so is the row of their trees. The main statements say that resolving
the links of a row gives this tree, and that no other links are resolved.
-/

namespace CommandScript
set_option autoImplicit false

variable {α β : Type}

/-! ## Rows -/

/-- A first operand, and operators with an operand behind each. -/
structure Row (α : Type) where
  first : α
  others : List (Operator × α)

/-- Whether an operator adds or subtracts. -/
def Operator.isAdditive (op : Operator) : Bool := op = .add || op = .subtract

namespace Row

/-- The operators of a row and the operands behind them as links. -/
def pairLinks (others : List (Operator × Expr)) : List Link :=
  others.flatMap fun other => [.operator other.1, .operand other.2]

def links (row : Row Expr) : List Link := .operand row.first :: pairLinks row.others

/-- The tree in which each operator has all that stands before it to its left. -/
def fold (row : Row Expr) : Expr :=
  row.others.foldl (fun left other => .binary left other.1 other.2) row.first

def map (f : α → β) (row : Row α) : Row β :=
  ⟨f row.first, row.others.map fun other => (other.1, f other.2)⟩

/-- What stands before the first operator at which to cut, and that operator and each further one of
that kind with the piece behind it. -/
def cutOthers (separates : Operator → Bool) :
    List (Operator × α) → List (Operator × α) × List (Operator × Row α)
  | [] => ([], [])
  | (op, a) :: others =>
    let (here, pieces) := cutOthers separates others
    if separates op then ([], (op, ⟨a, here⟩) :: pieces) else ((op, a) :: here, pieces)

/-- The row of the pieces into which a row is cut. -/
def cut (separates : Operator → Bool) (row : Row α) : Row (Row α) :=
  let (here, pieces) := cutOthers separates row.others
  ⟨⟨row.first, here⟩, pieces⟩

/-- The tree of a row: it is cut where something is added or subtracted, each piece is folded, and then
the row of their trees is. -/
def tree (row : Row Expr) : Expr := ((row.cut Operator.isAdditive).map fold).fold

/-! ## Cutting -/

theorem cut_of_separates {separates : Operator → Bool} {op : Operator} (h : separates op)
    (first a : α) (others : List (Operator × α)) :
    cut separates ⟨first, (op, a) :: others⟩ =
      ⟨⟨first, []⟩, (op, (cut separates ⟨a, others⟩).first) ::
        (cut separates ⟨a, others⟩).others⟩ := by
  unfold cut
  simp only [cutOthers, h, if_true]

theorem map_fold_cut_of_not {separates : Operator → Bool} {op : Operator}
    (h : separates op = false) (first e : Expr) (others : List (Operator × Expr)) :
    (cut separates ⟨first, (op, e) :: others⟩).map fold =
      (cut separates ⟨.binary first op e, others⟩).map fold := by
  unfold cut
  simp only [cutOthers, h, Bool.false_eq_true, if_false]
  rfl

theorem cut_of_forall_not {separates : Operator → Bool} (row : Row α)
    (h : ∀ other ∈ row.others, separates other.1 = false) : row.cut separates = ⟨row, []⟩ := by
  have hothers (others : List (Operator × α)) (hall : ∀ other ∈ others, separates other.1 = false) :
      cutOthers separates others = (others, []) := by
    induction others with
    | nil => rfl
    | cons other others ih =>
      rw [List.forall_mem_cons] at hall
      simp only [cutOthers, ih hall.2, hall.1, Bool.false_eq_true, if_false]
  unfold cut
  rw [hothers row.others h]

theorem separates_of_mem_cut {separates : Operator → Bool} (row : Row α) :
    ∀ piece ∈ (row.cut separates).others, separates piece.1 := by
  have hothers (others : List (Operator × α)) :
      ∀ piece ∈ (cutOthers separates others).2, separates piece.1 := by
    induction others with
    | nil => exact nofun
    | cons other others ih =>
      unfold cutOthers
      dsimp only
      split
      · rename_i hop
        exact List.forall_mem_cons.mpr ⟨hop, ih⟩
      · exact ih
  exact hothers row.others

end Row

theorem Operator.isAdditive_iff (op : Operator) : op.isAdditive = (op.tier != 1) := by
  cases op <;> rfl

/-! ## Resolving the links of a row -/

namespace Chain

open Row (pairLinks)

/-- Applying the operators of one tier leaves the trees of the pieces between the other operators. -/
theorem applyTier_row (tier : Nat) (passed : List Link) (e : Expr) (others : List (Operator × Expr)) :
    applyTier tier (.operand e :: passed) (pairLinks others) =
      some (passed.reverse ++ ((Row.cut (·.tier != tier) ⟨e, others⟩).map Row.fold).links) := by
  induction others generalizing passed e with
  | nil =>
    unfold pairLinks List.flatMap applyTier
    simp [Row.cut, Row.cutOthers, Row.map, Row.fold, Row.links, pairLinks]
  | cons other others ih =>
    obtain ⟨op, x⟩ := other
    have hlinks : pairLinks ((op, x) :: others) = .operator op :: .operand x :: pairLinks others := rfl
    rw [hlinks, applyTier]
    by_cases htier : op.tier = tier
    · rw [if_pos htier, ih, Row.map_fold_cut_of_not (by simpa using htier)]
    · rw [if_neg htier, applyTier, ih, Row.cut_of_separates (by simpa using htier)]
      simp [Row.map, Row.links, pairLinks, Row.fold]

theorem applyTier_links (tier : Nat) (row : Row Expr) :
    applyTier tier [] row.links = some ((row.cut (·.tier != tier)).map Row.fold).links := by
  unfold Row.links applyTier
  exact applyTier_row tier [] row.first row.others

/-- The links of a row are resolved to the tree of the row. -/
theorem resolve_links (row : Row Expr) : resolve row.links = some row.tree := by
  have hcut : row.cut (fun op => op.tier != 1) = row.cut Operator.isAdditive :=
    congrArg (row.cut ·) (funext fun op => (op.isAdditive_iff).symm)
  generalize hpieces : (row.cut Operator.isAdditive).map Row.fold = pieces
  have hadditive : ∀ other ∈ pieces.others, (other.1.tier != 0) = false := by
    subst hpieces
    intro other hother
    obtain ⟨piece, hpiece, rfl⟩ := List.mem_map.mp hother
    have hop := Row.separates_of_mem_cut row piece hpiece
    revert hop
    cases piece.1 <;> decide
  have hfirst : applyTier 1 [] row.links = some pieces.links := by
    rw [applyTier_links, hcut, hpieces]
  have hsecond : applyTier 0 [] pieces.links = some [.operand pieces.fold] := by
    rw [applyTier_links, Row.cut_of_forall_not pieces hadditive]
    rfl
  unfold resolve Row.tree
  rw [hpieces]
  simp only [Operator.tiers, List.foldlM_cons, List.foldlM_nil, hfirst, hsecond, Option.bind_eq_bind,
    Option.bind_some, Option.pure_def]

/-! ## Other links -/

/-- The links are those of a row. -/
def IsRow (links : List Link) : Prop := ∃ row : Row Expr, row.links = links

theorem isRow_operand (e : Expr) : IsRow [.operand e] := ⟨⟨e, []⟩, rfl⟩

theorem isRow_cons {links : List Link} (e : Expr) (op : Operator) (h : IsRow links) :
    IsRow (.operand e :: .operator op :: links) := by
  obtain ⟨row, rfl⟩ := h
  exact ⟨⟨e, (op, row.first) :: row.others⟩, rfl⟩

theorem IsRow.append_pair {links : List Link} (h : IsRow links) (op : Operator) (e : Expr) :
    IsRow (links ++ [.operator op, .operand e]) := by
  obtain ⟨row, rfl⟩ := h
  refine ⟨⟨row.first, row.others ++ [(op, e)]⟩, ?_⟩
  simp [Row.links, pairLinks]

/-- Where an operand stands in a row, an operator between two operands may stand. -/
theorem IsRow.split {before behind : List Link} {e : Expr}
    (h : IsRow (before ++ .operand e :: behind)) (left : Expr) (op : Operator) (right : Expr) :
    IsRow (before ++ .operand left :: .operator op :: .operand right :: behind) := by
  obtain ⟨⟨first, others⟩, hlinks⟩ := h
  induction others generalizing first before with
  | nil =>
    cases before with
    | nil =>
      cases hlinks
      exact isRow_cons left op (isRow_operand right)
    | cons x before =>
      obtain ⟨-, hnil⟩ := List.cons.inj hlinks
      exact absurd hnil.symm (List.append_ne_nil_of_right_ne_nil _ (List.cons_ne_nil _ _))
  | cons other others ih =>
    cases before with
    | nil =>
      obtain ⟨-, rfl⟩ := List.cons.inj hlinks
      exact ⟨⟨left, (op, right) :: other :: others⟩, rfl⟩
    | cons x before =>
      obtain ⟨rfl, hbehind⟩ := List.cons.inj hlinks
      cases before with
      | nil => exact nomatch (List.cons.inj hbehind).1
      | cons y before =>
        obtain ⟨rfl, hrow⟩ := List.cons.inj hbehind
        exact isRow_cons _ _ (ih other.2 hrow)

/-- If a pass leaves a row, it began with one. -/
theorem isRow_of_applyTier {tier : Nat} {passed links out : List Link}
    (h : applyTier tier passed links = some out) (hout : IsRow out) :
    IsRow (passed.reverse ++ links) := by
  induction passed, links using applyTier.induct tier with
  | case1 passed =>
    unfold applyTier at h
    cases h
    rwa [List.append_nil]
  | case2 passed e rest ih =>
    unfold applyTier at h
    have hrest := ih h
    rwa [List.reverse_cons, List.append_assoc] at hrest
  | case3 op htier left before right behind ih =>
    unfold applyTier at h
    rw [if_pos htier] at h
    have hnode := ih h
    rw [List.reverse_cons, List.append_assoc] at hnode ⊢
    exact hnode.split left op right
  | case4 passed op rest htier hstuck =>
    unfold applyTier at h
    rw [if_pos htier] at h
    split at h
    · exact absurd rfl (hstuck _ _ _ _ rfl)
    · exact nomatch h
  | case5 passed op rest htier ih =>
    unfold applyTier at h
    rw [if_neg htier] at h
    have hrest := ih h
    rwa [List.reverse_cons, List.append_assoc] at hrest

theorem isRow_of_foldlM (tiers : List Nat) {links out : List Link}
    (h : tiers.foldlM (fun links tier => applyTier tier [] links) links = some out)
    (hout : IsRow out) : IsRow links := by
  induction tiers generalizing links with
  | nil =>
    cases h
    exact hout
  | cons tier tiers ih =>
    rw [List.foldlM_cons, Option.bind_eq_bind, Option.bind_eq_some_iff] at h
    obtain ⟨links', happly, hfold⟩ := h
    exact isRow_of_applyTier happly (ih hfold)

theorem isRow_of_resolve {links : List Link} {e : Expr} (h : resolve links = some e) :
    IsRow links := by
  unfold resolve at h
  split at h
  · rename_i hfold
    exact isRow_of_foldlM _ hfold (isRow_operand _)
  · exact nomatch h

/-- The links of rows are resolved, and no others; the answer is the tree of the row. -/
theorem resolve_eq_some_iff {links : List Link} {e : Expr} :
    resolve links = some e ↔ ∃ row : Row Expr, row.links = links ∧ row.tree = e := by
  constructor
  · intro h
    obtain ⟨row, rfl⟩ := isRow_of_resolve h
    rw [resolve_links] at h
    exact ⟨row, rfl, Option.some.inj h⟩
  · rintro ⟨row, rfl, rfl⟩
    exact resolve_links row

end Chain

end CommandScript
