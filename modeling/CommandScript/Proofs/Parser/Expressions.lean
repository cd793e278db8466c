import CommandScript.Proofs.Double.Canonical
import CommandScript.Proofs.Parser.Yields

/-!
What the parsers of expressions take. A parser that finds no operand takes nothing; one that answers
has taken the yield of its answer, and blanks, commas and brackets with it. Applying the operators
of a chain tier by tier keeps the yield of the chain.
-/

namespace CommandScript
set_option autoImplicit false

open CommandScript.Parser (Repeated)

/-! ## Chains -/

inductive Link.Yields : Link → List Lexeme → Prop where
  | operand {e : Expr} {ls : List Lexeme} : e.Yields ls → Yields (.operand e) ls
  | operator {op : Operator} {sign : Lexeme} :
      Operator.ofKind? sign.kind = some op → Yields (.operator op) [sign]

namespace Chain

variable {links passed : List Link} {before behind ls : List Lexeme}

theorem yields_push {link : Link} {ls' : List Lexeme} (h : Repeated Link.Yields passed.reverse ls)
    (hlink : link.Yields ls') : Repeated Link.Yields (link :: passed).reverse (ls ++ ls') := by
  rw [List.reverse_cons]
  exact h.append (.single hlink)

/-- The links that were passed and those that are left yield the same lexemes in all steps: a node
takes the place of its operands and of the operator between them. -/
theorem yields_applyTier {tier : Nat} {out : List Link}
    (hpassed : Repeated Link.Yields passed.reverse before)
    (hlinks : Repeated Link.Yields links behind)
    (happly : applyTier tier passed links = some out) :
    Repeated Link.Yields out (before ++ behind) := by
  induction passed, links using applyTier.induct tier generalizing before behind with
  | case1 passed =>
    unfold applyTier at happly
    cases happly
    cases hlinks
    rw [List.append_nil]
    exact hpassed
  | case2 passed e rest ih =>
    unfold applyTier at happly
    obtain _ | ⟨he, hrest⟩ := hlinks
    rw [← List.append_assoc]
    exact ih (yields_push hpassed he) hrest happly
  | case3 op htier left passed right rest ih =>
    unfold applyTier at happly
    rw [if_pos htier] at happly
    obtain _ | ⟨hsign, _ | ⟨hoperand, hrest⟩⟩ := hlinks
    rw [List.reverse_cons] at hpassed
    obtain ⟨ls, ls', rfl, hbefore, hlast⟩ := hpassed.of_append
    cases hlast.of_single with | operand hleft =>
    cases hsign with | operator hop =>
    cases hoperand with | operand hright =>
    have hnode := ih (yields_push hbefore (.operand (.binary hleft hop hright))) hrest happly
    simpa using hnode
  | case4 passed op rest htier hstuck =>
    unfold applyTier at happly
    rw [if_pos htier] at happly
    split at happly
    · exact absurd rfl (hstuck _ _ _ _ rfl)
    · exact nomatch happly
  | case5 passed op rest htier ih =>
    unfold applyTier at happly
    rw [if_neg htier] at happly
    obtain _ | ⟨hop, hrest⟩ := hlinks
    rw [← List.append_assoc]
    exact ih (yields_push hpassed hop) hrest happly

theorem yields_foldlM_applyTier (tiers : List Nat) {out : List Link}
    (hlinks : Repeated Link.Yields links ls)
    (hfold : tiers.foldlM (fun links tier => applyTier tier [] links) links = some out) :
    Repeated Link.Yields out ls := by
  induction tiers generalizing links with
  | nil =>
    cases hfold
    exact hlinks
  | cons tier tiers ih =>
    rw [List.foldlM_cons, Option.bind_eq_bind, Option.bind_eq_some_iff] at hfold
    obtain ⟨links', happly, hfold⟩ := hfold
    exact ih (yields_applyTier .nil hlinks happly) hfold

theorem yields_resolve {e : Expr} (hlinks : Repeated Link.Yields links ls)
    (hresolve : resolve links = some e) : e.Yields ls := by
  unfold resolve at hresolve
  split at hresolve
  · rename_i e' hfold
    cases hresolve
    cases (yields_foldlM_applyTier _ hlinks hfold).of_single with | operand he =>
    exact he
  · exact nomatch hresolve

end Chain

/-! ## Significant lexemes taken -/

namespace Parser

variable {α β : Type} {p : Parser α} {l : Lexeme} {ls : List Lexeme}

/-- Where the parser starts at `l` and answers, its answer and the significant lexemes taken are as
`Q` says. -/
def ReadsAt (p : Parser α) (l : Lexeme) (Q : α → List Lexeme → Prop) : Prop :=
  Takes p l fun a ts _ => Q a (significant ts)

def Reads (p : Parser α) (Q : α → List Lexeme → Prop) : Prop := ∀ l, ReadsAt p l Q

variable {P : α → List Lexeme → Prop} {Q : β → List Lexeme → Prop}

theorem reads_pure {a : α} (h : P a []) : Reads (pure a) P := fun _ => takes_pure h

theorem reads_fail {fault : SyntaxFault} : Reads (fail fault l : Parser α) P :=
  fun _ => takes_fail fault l

theorem ReadsAt.bind {f : α → Parser β} (hp : ReadsAt p l P)
    (hf : ∀ a ls, P a ls → Reads (f a) fun b ls' => Q b (ls ++ ls')) : ReadsAt (p >>= f) l Q := by
  refine takes_bind hp fun a ts l' hts => (hf a _ hts l').weaken ?_
  intro b us l'' hus
  rw [significant_append]
  exact hus

theorem Reads.bind {f : α → Parser β} (hp : Reads p P)
    (hf : ∀ a ls, P a ls → Reads (f a) fun b ls' => Q b (ls ++ ls')) : Reads (p >>= f) Q :=
  fun l => (hp l).bind hf

theorem reads_peek_bind {f : Lexeme → Parser β} (h : ∀ l, ReadsAt (f l) l Q) :
    Reads (peek >>= f) Q :=
  fun l => takes_peek_bind (h l)

theorem reads_peekPast_bind {f : Lexeme → Parser β} {mode : Skip} (h : ∀ x, Reads (f x) Q) :
    Reads (peekPast mode >>= f) Q :=
  fun l => takes_peekPast_bind fun x => h x l

theorem readsAt_advance_bind {f : Lexeme → Parser β} (hkind : l.kind ≠ .endOfFile)
    (h : Reads (f l) fun b ls => Q b (significant [l] ++ ls)) : ReadsAt (advance >>= f) l Q := by
  refine takes_advance_bind hkind fun l' => (h l').weaken ?_
  intro b us l'' hus
  change Q b (significant [l] ++ significant us) at hus
  rw [← significant_append] at hus
  exact hus

theorem significant_skipped {mode : Skip} (h : ∀ x ∈ ls, mode.skips x.kind) :
    significant ls = [] := by
  refine significant_eq_nil fun x hx => ?_
  have hskips := h x hx
  revert hskips
  cases mode <;> cases x.kind <;> decide

theorem Reads.weaken {P' : α → List Lexeme → Prop} (h : Reads p P)
    (hP : ∀ a ls, P a ls → P' a ls) : Reads p P' :=
  fun l => (h l).weaken fun a ts _ => hP a (significant ts)

/-- An answer is made of the lexemes; where there is none, nothing was taken. -/
def Optionally (one : α → List Lexeme → Prop) : Option α → List Lexeme → Prop
  | none, ls => ls = []
  | some a, ls => one a ls

/-- If an answer is made of at least one lexeme, the parser goes ahead whenever it answers. -/
theorem Reads.progress {step : Parser (Option α)}
    (h : Reads step (Optionally fun a ls => P a ls ∧ ls ≠ [])) (l : Lexeme) :
    Takes step l fun o ts _ => o = none ∨ ts ≠ [] := by
  refine (h l).weaken ?_
  rintro (_ | a) ts l' ha
  · exact .inl rfl
  · refine .inr fun hnil => ha.2 ?_
    rw [hnil]
    rfl

theorem reads_some {Q : Option α → List Lexeme → Prop} (h : Reads p fun a ls => Q (some a) ls) :
    Reads (some <$> p) Q := by
  rw [map_eq_pure_bind]
  refine h.bind fun a ls ha => reads_pure ?_
  rw [List.append_nil]
  exact ha

theorem reads_skip (mode : Skip) : Reads (skip mode) fun _ ls => ls = [] :=
  fun _ => (takes_skip mode).weaken fun _ _ _ h => significant_skipped h

theorem reads_skip_bind {mode : Skip} {f : Unit → Parser β} (h : Reads (f ()) Q) :
    Reads (skip mode >>= f) Q := by
  refine (reads_skip mode).bind fun _ ls hls => ?_
  rw [hls]
  exact h

theorem significant_found {wanted : Lexeme → Bool} {mode : Skip}
    (h : Found wanted mode (some l) ls) : wanted l ∧ significant ls = significant [l] := by
  cases h with
  | some hskipped hwanted =>
    refine ⟨hwanted, ?_⟩
    rw [significant_append, significant_skipped hskipped, List.nil_append]

theorem reads_tryTakeIf {wanted : Lexeme → Bool} (mode : Skip)
    (hwanted : ∀ x, wanted x → x.kind ≠ .endOfFile) :
    Reads (tryTakeIf wanted mode) (Optionally fun x ls => wanted x ∧ ls = significant [x]) := by
  refine fun l => (takes_tryTakeIf mode hwanted).weaken ?_
  rintro (_ | x) ts l' ⟨hfound, -⟩
  · cases hfound
    rfl
  · exact significant_found hfound

theorem reads_tryTake {kind : LexemeKind} (mode : Skip) (hkind : kind ≠ .endOfFile) :
    Reads (tryTake kind mode) (Optionally fun x ls => x.kind = kind ∧ ls = significant [x]) := by
  refine fun l => (takes_tryTake mode hkind).weaken ?_
  rintro (_ | x) ts l' ⟨hfound, -⟩
  · cases hfound
    rfl
  · obtain ⟨hx, hls⟩ := significant_found hfound
    exact ⟨beq_iff_eq.mp hx, hls⟩

theorem reads_take {kind : LexemeKind} (mode : Skip) (hkind : kind ≠ .endOfFile) :
    Reads (take kind mode) fun x ls => x.kind = kind ∧ ls = significant [x] := by
  refine fun l => (takes_take mode hkind).weaken fun x ts l' hfound => ?_
  obtain ⟨hx, hls⟩ := significant_found hfound
  exact ⟨beq_iff_eq.mp hx, hls⟩

theorem readsAt_attempt {p : Parser (Option α)}
    (h : ReadsAt p l fun o ls => ∀ a, o = some a → P a ls) :
    ReadsAt (attempt p) l (Optionally P) := by
  refine (takes_attempt h).weaken ?_
  rintro (_ | a) ts l' hts
  · rw [hts.1]
    rfl
  · exact hts

theorem Repeated.significant {one : α → List Lexeme → Prop} {as : List α}
    (h : Repeated (fun a ts => one a (significant ts)) as ls) : Repeated one as (significant ls) := by
  induction h with
  | nil => exact .nil
  | cons hone _ ih =>
    rw [significant_append]
    exact .cons hone ih

/-- A step that answers takes a significant lexeme, so it does not run out of rounds. -/
theorem takes_many_significant {step : Parser (Option α)} (stop : Lexeme → Prop)
    (hstep : ∀ l, Takes step l fun o ts l' =>
      Optionally (fun a ls => P a ls ∧ ls ≠ []) o (significant ts) ∧ (o = none → stop l')) :
    Takes (many step) l fun as ts l' => Repeated P as (significant ts) ∧ stop l' := by
  have hsteps : Steps step (fun a ts => P a (significant ts))
      fun ts l' => significant ts = [] ∧ stop l' := by
    refine fun l => (hstep l).weaken ?_
    rintro (_ | a) ts l' ⟨hone, hstop⟩
    · exact ⟨hone, hstop rfl⟩
    · refine ⟨hone.1, fun h => hone.2 ?_⟩
      rw [h]
      rfl
  refine (takes_many hsteps).weaken ?_
  rintro as ts l' ⟨us, vs, rfl, has, hvs, hstop⟩
  refine ⟨?_, hstop⟩
  rw [significant_append, hvs, List.append_nil]
  exact has.significant

theorem reads_many {step : Parser (Option α)}
    (hstep : Reads step (Optionally fun a ls => P a ls ∧ ls ≠ [])) :
    Reads (many step) (Repeated P) := by
  refine fun l => (takes_many_significant (fun _ => True) fun l' => ?_).weaken fun _ _ _ => And.left
  exact (hstep l').weaken fun _ _ _ h => ⟨h, fun _ => trivial⟩

/-! ## Expressions and arguments -/

theorem operator_not_endOfFile (x : Lexeme) (h : (Operator.ofKind? x.kind).isSome) :
    x.kind ≠ .endOfFile := by
  intro hkind
  rw [hkind] at h
  exact nomatch h

theorem significant_operator {op : Operator} (h : Operator.ofKind? l.kind = some op) :
    significant [l] = [l] := by
  refine significant_cons ?_
  revert h
  cases l.kind <;> simp [Operator.ofKind?, LexemeKind.isSignificant]

/-- What stands before an argument: blanks, and a comma before all but the first. -/
def argumentSeparator (isFirst : Bool) : Parser Unit := do
  skip .whitespace
  if !isFirst then
    let _ ← tryTake .comma .nothing
    skip .whitespace

theorem argument?_eq (operand : Parser (Option Expr)) (isFirst : Bool) :
    argument? operand isFirst = attempt (do
      argumentSeparator isFirst
      expression? operand) := by
  unfold argument? attempt argumentSeparator
  cases isFirst with
  | true =>
    simp only [bind_assoc, pure_bind, Bool.not_true, Bool.false_eq_true, if_false]
    refine bind_congr fun _ => bind_congr fun _ => bind_congr fun o => ?_
    cases o <;> rfl
  | false =>
    simp only [bind_assoc, Bool.not_false, if_true]
    refine bind_congr fun _ => bind_congr fun _ => bind_congr fun _ => bind_congr fun _ =>
      bind_congr fun o => ?_
    cases o <;> rfl

theorem reads_argumentSeparator (isFirst : Bool) :
    Reads (argumentSeparator isFirst) fun _ ls => ls = [] := by
  unfold argumentSeparator
  refine reads_skip_bind ?_
  cases isFirst with
  | true => exact reads_pure rfl
  | false =>
    refine (reads_tryTake .nothing (by decide)).bind ?_
    rintro (_ | comma) ls hcomma
    · obtain rfl : ls = [] := hcomma
      exact reads_skip .whitespace
    · obtain ⟨hkind, rfl⟩ := hcomma
      have hcomma : significant [comma] = [] := by
        refine significant_cons_of_not ?_
        rw [hkind]
        decide
      rw [hcomma]
      exact reads_skip .whitespace

open Chain (yields_push yields_resolve)

theorem variableName?_eq_some {word name : String} (h : variableName? word = some name) :
    name ≠ "" ∧ word = "$" ++ name := by
  unfold variableName? at h
  split at h
  · rename_i c cs hword
    cases h
    refine ⟨?_, ?_⟩
    · intro hempty
      have hlist := congrArg String.toList hempty
      rw [String.toList_ofList] at hlist
      exact nomatch hlist
    · rw [← String.toList_inj, hword, String.toList_append]
      simp
  · exact nomatch h

/-- A word behind the minus sign that writes a number. -/
def numberBehind? : Parser (Option Lexeme) := do
  let _ ← advance
  tryTakeIf isNumber .nothing

theorem negativeNumber?_eq :
    negativeNumber? =
      attempt numberBehind? >>= fun o => pure (o.bind fun l =>
        (Number.ofWord? l.content).map fun x => -x) := by
  unfold negativeNumber? attempt numberBehind?
  simp only [bind_assoc]
  refine bind_congr fun _ => bind_congr fun _ => bind_congr fun o => ?_
  cases o <;> rfl

theorem readsAt_negativeNumber? (hminus : l.kind = .minus) :
    ReadsAt negativeNumber? l (Optionally fun x ls => Expr.Yields (.literal (.number x)) ls) := by
  have hsign : significant [l] = [l] := significant_of_kind hminus rfl
  have hword : ∀ x, isNumber x → x.kind = .word := by
    intro x hx
    rw [isNumber, Bool.and_eq_true, beq_iff_eq] at hx
    exact hx.1
  have hfound : ReadsAt numberBehind? l
      fun o ls => ∀ w, o = some w → isNumber w ∧ ls = [l, w] := by
    have htry : Reads (tryTakeIf isNumber .nothing) _ := reads_tryTakeIf .nothing
      fun x hx => by rw [hword x hx]; decide
    refine readsAt_advance_bind (by rw [hminus]; decide) (htry.weaken ?_)
    rintro o ls ho w rfl
    obtain ⟨hnumber, rfl⟩ := ho
    rw [hsign, significant_of_kind (hword w hnumber) rfl]
    exact ⟨hnumber, rfl⟩
  rw [negativeNumber?_eq]
  refine (readsAt_attempt hfound).bind ?_
  rintro (_ | w) ls hw
  · obtain rfl : ls = [] := hw
    exact reads_pure rfl
  · obtain ⟨hnumber, rfl⟩ := hw
    have hkind := hword w hnumber
    rw [isNumber, Bool.and_eq_true, Option.isSome_iff_exists] at hnumber
    obtain ⟨-, x, hx⟩ := hnumber
    refine reads_pure ?_
    rw [Option.bind_some, hx, List.append_nil]
    refine .negativeNumber hminus hkind ?_
    rw [hx, Double.neg_neg]

section

variable {operand : Parser (Option Expr)} (hoperand : Reads operand (Optionally Expr.Yields))

include hoperand

theorem reads_linksFrom (n : Nat) {links : List Link} {before : List Lexeme}
    (hlinks : Repeated Link.Yields links.reverse before) :
    Reads (linksFrom operand n links) fun out ls => Repeated Link.Yields out (before ++ ls) := by
  induction n generalizing links before with
  | zero =>
    unfold linksFrom
    refine (reads_tryTakeIf .whitespace operator_not_endOfFile).bind ?_
    rintro (_ | sign) ls hsign
    · obtain rfl : ls = [] := hsign
      refine reads_pure ?_
      simpa using hlinks
    · exact reads_fail
  | succ n ih =>
    unfold linksFrom
    refine (reads_tryTakeIf .whitespace operator_not_endOfFile).bind ?_
    rintro (_ | sign) ls hsign
    · obtain rfl : ls = [] := hsign
      refine reads_pure ?_
      simpa using hlinks
    · obtain ⟨-, rfl⟩ := hsign
      dsimp only
      split
      · rename_i op hop
        have hsign : significant [sign] = [sign] := significant_operator hop
        refine reads_skip_bind (hoperand.bind ?_)
        rintro (_ | e) ls he
        · exact reads_peek_bind fun l => takes_fail _ _
        · have hmore := ih (yields_push (yields_push hlinks (.operator hop)) (.operand he))
          rw [hsign]
          simpa using hmore
      · exact reads_fail

theorem reads_expression? : Reads (expression? operand) (Optionally Expr.Yields) := by
  unfold expression?
  refine reads_peek_bind fun start => ?_
  refine (hoperand.bind ?_) start
  rintro (_ | first) ls hfirst
  · exact reads_pure (by simpa using hfirst)
  · have hlinks : Reads (linksFrom operand maxDepth [.operand first])
        fun out ls' => Repeated Link.Yields out (ls ++ ls') :=
      reads_linksFrom hoperand maxDepth (.single (.operand hfirst))
    refine hlinks.bind fun links ls' hyields => ?_
    split
    · exact reads_fail
    · rename_i e hresolve
      split
      · exact reads_fail
      · refine reads_pure ?_
        rw [List.append_nil]
        exact yields_resolve hyields hresolve

theorem reads_expression : Reads (expression operand) Expr.Yields := by
  unfold expression
  refine (reads_expression? hoperand).bind ?_
  rintro (_ | e) ls he
  · exact reads_peek_bind fun l => takes_fail _ _
  · refine reads_pure ?_
    rw [List.append_nil]
    exact he

theorem reads_argument? (isFirst : Bool) :
    Reads (argument? operand isFirst) (Optionally Expr.Yields) := by
  rw [argument?_eq]
  refine fun l => readsAt_attempt ((reads_argumentSeparator isFirst l).bind fun _ ls hls => ?_)
  refine (reads_expression? hoperand).weaken fun o ls' ho e he => ?_
  rw [he] at ho
  rw [hls]
  exact ho

theorem reads_argument?_ne_nil (isFirst : Bool) :
    Reads (argument? operand isFirst) (Optionally fun e ls => e.Yields ls ∧ ls ≠ []) := by
  refine (reads_argument? hoperand isFirst).weaken ?_
  rintro (_ | e) ls he
  · exact he
  · exact ⟨he, he.ne_nil⟩

theorem reads_arguments : Reads (arguments operand) (Repeated Expr.Yields) := by
  unfold arguments
  refine (reads_argument? hoperand true).bind ?_
  rintro (_ | first) ls hfirst
  · obtain rfl : ls = [] := hfirst
    exact reads_pure .nil
  · have hstep := reads_argument?_ne_nil hoperand false
    refine (reads_many hstep).bind fun others ls' hothers => reads_pure ?_
    rw [List.append_nil]
    exact .cons hfirst hothers

/-! ## Operands -/

theorem reads_wordOperand {w : Lexeme} (hw : w.kind = .word) :
    Reads (wordOperand operand w) fun e ls => e.Yields (w :: ls) := by
  unfold wordOperand
  split
  · rename_i x _ hx
    exact reads_pure (.number hw hx)
  · rename_i name hx hname
    obtain ⟨hne, hcontent⟩ := variableName?_eq_some hname
    refine (reads_tryTake .whitespace (by decide)).bind ?_
    rintro (_ | sign) ls hsign
    · obtain rfl : ls = [] := hsign
      exact reads_pure (.variable ⟨hw, hcontent⟩ hne)
    · obtain ⟨hkind, rfl⟩ := hsign
      have hsign : significant [sign] = [sign] := by
        refine significant_cons ?_
        rw [hkind]
        rfl
      refine reads_skip_bind ((reads_expression hoperand).bind fun value ls hvalue => reads_pure ?_)
      rw [hsign]
      simpa using .assign ⟨hw, hcontent⟩ hne hkind hvalue
  · exact reads_fail

theorem reads_markedOperand {mark : Lexeme} (hmark : mark.kind = .exclamation) :
    Reads (markedOperand operand) fun e ls => e.Yields (mark :: ls) := by
  unfold markedOperand
  refine reads_peek_bind fun w => ?_
  split
  · rename_i hname
    rw [Bool.and_eq_true, beq_iff_eq] at hname
    have hw : significant [w] = [w] := significant_of_kind hname.1 rfl
    refine readsAt_advance_bind (by rw [hname.1]; decide) ?_
    refine (reads_arguments hoperand).bind fun args ls hargs => reads_pure ?_
    rw [hw]
    simpa using .call hmark ⟨hname.1, rfl⟩ hname.2 hargs
  · refine (hoperand.bind ?_) w
    rintro (_ | e) ls he
    · exact reads_fail
    · refine reads_pure ?_
      rw [List.append_nil]
      exact .negate hmark he

theorem reads_operandOver : Reads (operandOver operand) (Optionally Expr.Yields) := by
  unfold operandOver
  refine reads_peek_bind fun l => ?_
  split
  · rename_i hkind
    have hl : significant [l] = [] := significant_of_kind' hkind rfl
    refine readsAt_advance_bind (by rw [hkind]; decide) (reads_skip_bind ?_)
    refine (reads_expression hoperand).bind fun e ls he => ?_
    refine (reads_take .whitespace (by decide)).bind ?_
    rintro close ls' ⟨hclose, rfl⟩
    refine reads_pure ?_
    rw [hl, significant_of_kind' hclose rfl]
    change e.Yields _
    simpa using he
  · rename_i hkind
    have hl : significant [l] = [l] := significant_of_kind hkind rfl
    refine readsAt_advance_bind (by rw [hkind]; decide) ?_
    split
    · rename_i s hs
      refine reads_pure ?_
      rw [hl]
      exact .text hkind hs
    · exact reads_fail
  · rename_i hkind
    have hl : significant [l] = [l] := significant_of_kind hkind rfl
    split
    · rename_i hcontent
      refine readsAt_advance_bind (by rw [hkind]; decide) (reads_pure ?_)
      rw [hl]
      refine .boolean hkind ?_
      rcases hcontent with h | h <;> rw [h] <;> rfl
    · exact reads_fail l
  · rename_i hkind
    have hl : significant [l] = [l] := significant_of_kind hkind rfl
    refine readsAt_advance_bind (by rw [hkind]; decide) ?_
    rw [hl]
    exact reads_some (reads_wordOperand hoperand hkind)
  · rename_i hkind
    have hl : significant [l] = [l] := significant_of_kind hkind rfl
    refine readsAt_advance_bind (by rw [hkind]; decide) ?_
    rw [hl]
    exact reads_some (reads_markedOperand hoperand hkind)
  · rename_i hkind
    refine (readsAt_negativeNumber? hkind).bind ?_
    rintro (_ | x) ls hx
    · obtain rfl : ls = [] := hx
      exact reads_pure rfl
    · refine reads_pure ?_
      rw [List.append_nil]
      exact hx
  · exact takes_pure rfl

end

theorem reads_operandWithin (n : Nat) : Reads (operandWithin n) (Optionally Expr.Yields) := by
  induction n with
  | zero => exact fun _ _ _ _ _ _ h => nomatch h
  | succ n ih => exact reads_operandOver ih

theorem reads_operand : Reads operand (Optionally Expr.Yields) := reads_operandWithin maxDepth

end Parser
end CommandScript
