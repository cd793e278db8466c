import CommandScript.Expr.Chain
import CommandScript.Proofs.Walker.Basic

/-!
Operator chains by index. The links of a chain are taken out and put back by their index, and an index
without link stops the walk. A scan of a chain does what the scan with the passed links apart does, so
no index is without link.
-/

namespace CommandScript
namespace Walker
set_option autoImplicit false

/-! ## Links by index -/

def linkAt (chain : List Link) (i : Nat) : Walker Link :=
  match chain[i]? with
  | some link => pure link
  | none => throw .outOfRange

/-- The three links from index `i` on, and the chain without them. -/
def drain (chain : List Link) (i : Nat) : Walker (List Link × List Link) :=
  if i + 3 ≤ chain.length then
    pure ((chain.drop i).take 3, chain.take i ++ chain.drop (i + 3))
  else throw .outOfRange

def insert (chain : List Link) (i : Nat) (link : Link) : Walker (List Link) :=
  if i ≤ chain.length then pure (chain.take i ++ link :: chain.drop i) else throw .outOfRange

def isOperatorOf (tier : Nat) : Link → Bool
  | .operator op => op.tier == tier
  | .operand _ => false

/-- Passes the link at index `i`, or applies it if it is an operator of the tier, and goes on with
`next`. A fault shows at `start`. -/
def applyTierStep (start : Lexeme) (tier : Nat) (next : List Link → Nat → Walker (List Link))
    (chain : List Link) (i : Nat) : Walker (List Link) := do
  if i < chain.length then
    let link ← linkAt chain i
    if isOperatorOf tier link then
      if i = 0 ∨ chain.length ≤ i + 1 then fail .invalidOperatorChain start
      else
        let (parts, others) ← drain chain (i - 1)
        match parts with
        | [.operand left, .operator op, .operand right] =>
          let chain ← insert others (i - 1) (.operand (.binary left op right))
          next chain i
        | _ => fail .invalidOperatorChain start
    else next chain (i + 1)
  else pure chain

/-- Applies the operators of one tier, from index `i` on. -/
noncomputable def applyTierFrom (start : Lexeme) (tier : Nat) (chain : List Link) (i : Nat) :
    Walker (List Link) :=
  fix (fun next (links : List Link × Nat) =>
    applyTierStep start tier (fun chain i => next (chain, i)) links.1 links.2) (chain, i)

theorem applyTierFrom_eq (start : Lexeme) (tier : Nat) (chain : List Link) (i : Nat) :
    applyTierFrom start tier chain i =
      applyTierStep start tier (applyTierFrom start tier) chain i := by
  refine fix_eq (fun next called hnext links => ?_) (chain, i)
  refine .ite (.after _ fun link => .ite (.ite (.const _) (.after _ ?_)) (hnext _)) (.const _)
  rintro ⟨parts, others⟩
  dsimp only
  split
  · exact .after _ fun chain => hnext _
  · exact .const _

/-- The tree of a chain that begins at the lexeme `start`. -/
noncomputable def resolve (start : Lexeme) (chain : List Link) : Walker Expr := do
  let links ← Operator.tiers.foldlM (fun links tier => applyTierFrom start tier links 0) chain
  match links with
  | [.operand e] => pure e
  | _ => fail .invalidOperatorChain start

/-! ## Chains with the passed links apart -/

variable {α : Type}

/-- The answer, if there is one; else a chain that begins at `start` is at fault. -/
def answered (start : Lexeme) (answer : Option α) (w : Walk) : Option (Except Halt α × Walk) :=
  match answer with
  | some a => some (.ok a, w)
  | none => some (.error (.fault (.ofLexeme .invalidOperatorChain start)), w)

theorem linkAt_apply {passed rest : List Link} {link : Link} (w : Walk) :
    linkAt (passed.reverse ++ link :: rest) passed.length w = some (.ok link, w) := by
  have hlink : (passed.reverse ++ link :: rest)[passed.length]? = some link := by
    rw [← List.length_reverse, List.getElem?_append_right (Nat.le_refl _), Nat.sub_self]
    rfl
  unfold linkAt
  rw [hlink]
  rfl

theorem drain_apply {before behind : List Link} {x y z : Link} (w : Walk) :
    drain (before ++ x :: y :: z :: behind) before.length w =
      some (.ok ([x, y, z], before ++ behind), w) := by
  unfold drain
  rw [if_pos (by simp only [List.length_append, List.length_cons]; omega)]
  rw [List.drop_left, List.take_left, ← List.drop_drop, List.drop_left]
  rfl

theorem insert_apply {before behind : List Link} {link : Link} (w : Walk) :
    insert (before ++ behind) before.length link w = some (.ok (before ++ link :: behind), w) := by
  unfold insert
  rw [if_pos (by rw [List.length_append]; omega), List.drop_left, List.take_left]
  rfl

theorem not_at_end (x y z : Link) (before behind : List Link) :
    ¬ ((x :: before).length = 0 ∨
      ((x :: before).reverse ++ y :: z :: behind).length ≤ (x :: before).length + 1) := by
  simp only [List.length_append, List.length_reverse, List.length_cons]
  omega

theorem isOperatorOf_operator {tier : Nat} {op : Operator} :
    isOperatorOf tier (.operator op) ↔ op.tier = tier := beq_iff_eq

/-- The links with an index below `i` are those that were passed. -/
theorem applyTierFrom_apply (start : Lexeme) (tier : Nat) (passed rest : List Link) (w : Walk) :
    applyTierFrom start tier (passed.reverse ++ rest) passed.length w =
      answered start (Chain.applyTier tier passed rest) w := by
  induction passed, rest using Chain.applyTier.induct tier with
  | case1 passed =>
    rw [applyTierFrom_eq]
    unfold applyTierStep Chain.applyTier
    rw [List.append_nil, if_neg (by rw [List.length_reverse]; exact Nat.lt_irrefl _)]
    rfl
  | case2 passed e rest ih =>
    rw [applyTierFrom_eq]
    unfold applyTierStep Chain.applyTier
    rw [if_pos (by simp), bind_apply, linkAt_apply]
    rw [List.reverse_cons, List.append_assoc] at ih
    exact ih
  | case3 op htier left before right behind ih =>
    have hchain : (Link.operand left :: before).reverse ++ .operator op :: .operand right :: behind =
        before.reverse ++ .operand left :: .operator op :: .operand right :: behind := by simp
    have hindex : (Link.operand left :: before).length - 1 = before.reverse.length := by simp
    rw [applyTierFrom_eq]
    unfold applyTierStep Chain.applyTier
    rw [if_pos (by simp), bind_apply, linkAt_apply, if_pos htier]
    dsimp only
    rw [if_pos (isOperatorOf_operator.mpr htier), if_neg (not_at_end _ _ _ _ _), bind_apply, hindex,
      hchain, drain_apply]
    dsimp only
    rw [bind_apply, insert_apply]
    rw [List.reverse_cons, List.append_assoc] at ih
    exact ih
  | case4 passed op rest htier hstuck =>
    rw [applyTierFrom_eq]
    unfold applyTierStep Chain.applyTier
    rw [if_pos (by simp), bind_apply, linkAt_apply, if_pos htier]
    dsimp only
    rw [if_pos (isOperatorOf_operator.mpr htier)]
    -- At either end of the chain the operator has one operand at most; between two links it is stuck
    -- unless both are operands.
    cases passed with
    | nil =>
      rw [if_pos (.inl rfl)]
      rfl
    | cons x before =>
      cases rest with
      | nil =>
        rw [if_pos (.inr (by simp))]
        cases x <;> rfl
      | cons y behind =>
        have hchain : (x :: before).reverse ++ .operator op :: y :: behind =
            before.reverse ++ x :: .operator op :: y :: behind := by simp
        have hindex : (x :: before).length - 1 = before.reverse.length := by simp
        rw [if_neg (not_at_end _ _ _ _ _), bind_apply, hindex, hchain, drain_apply]
        cases x with
        | operator left => rfl
        | operand left =>
          cases y with
          | operator right => rfl
          | operand right => exact absurd rfl (hstuck left before right behind rfl)
  | case5 passed op rest htier ih =>
    rw [applyTierFrom_eq]
    unfold applyTierStep Chain.applyTier
    rw [if_pos (by simp), bind_apply, linkAt_apply, if_neg htier]
    dsimp only
    rw [if_neg (mt isOperatorOf_operator.mp htier)]
    rw [List.reverse_cons, List.append_assoc] at ih
    exact ih

theorem applyTiers_apply (start : Lexeme) (tiers : List Nat) (chain : List Link) (w : Walk) :
    (tiers.foldlM (fun links tier => applyTierFrom start tier links 0) chain : Walker (List Link)) w =
      answered start (tiers.foldlM (fun links tier => Chain.applyTier tier [] links) chain) w := by
  induction tiers generalizing chain with
  | nil => rfl
  | cons tier tiers ih =>
    rw [List.foldlM_cons, List.foldlM_cons, bind_apply]
    have htier : applyTierFrom start tier chain 0 w = _ := applyTierFrom_apply start tier [] chain w
    rw [htier]
    rcases Chain.applyTier tier [] chain with _ | links
    · rfl
    · exact ih links

theorem resolve_apply (start : Lexeme) (chain : List Link) (w : Walk) :
    resolve start chain w = answered start (Chain.resolve chain) w := by
  unfold resolve Chain.resolve
  rw [bind_apply, applyTiers_apply]
  rcases Operator.tiers.foldlM (fun links tier => Chain.applyTier tier [] links) chain with _ | links
  · rfl
  · rcases links with _ | ⟨link | op, _ | ⟨link', links⟩⟩ <;> rfl

theorem imitates_resolve {ls : List Lexeme} {n : Nat} {inFunction : Bool} (start : Lexeme)
    (chain : List Link) :
    Imitates ls n inFunction (resolve start chain)
      (match Chain.resolve chain with
        | none => Parser.fail .invalidOperatorChain start
        | some e => pure e) := by
  intro w c hlevel hshows
  rw [resolve_apply]
  rcases Chain.resolve chain with _ | e
  · exact ⟨w, rfl, hlevel⟩
  · exact ⟨w, rfl, hlevel, hshows⟩

end Walker
end CommandScript
