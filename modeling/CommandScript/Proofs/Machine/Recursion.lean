import Mathlib.Logic.Relation
import CommandScript.Proofs.Machine.Assignments
import CommandScript.Proofs.Machine.Faults

/-!
Recursion. Code that runs to its end leaves out no part of itself: there are no branches. So a function
whose body calls it again, by way of other functions or not, comes to that call before its own end, one
frame further up, and so on until the stack may grow no more. The main statement is that every call into
such a circle of functions fails.
-/

namespace CommandScript
set_option autoImplicit false

variable {σ : Type}

/-! ## Circles of functions -/

/-- A call of the name is among the parts of the expressions of the body. -/
def Function.Mentions (f : Function) (callee : String) : Prop :=
  ∃ s ∈ f.body, ∃ e ∈ s.expressions, ∃ args, .call callee args ∈ e.parts

namespace FrameStack

/-- No function of the stack declares a function in its body. -/
def Flat (s : FrameStack) : Prop :=
  ∀ f, s.Stores f → ∀ t ∈ f.body, t.isDeclaration = false

/-- Each name of the circle means a function in whose body some name of the circle is called. -/
def Circle (s : FrameStack) (circle : String → Prop) : Prop :=
  ∀ name, circle name → ∃ f, s.function? name = some f ∧ ∃ callee, circle callee ∧ f.Mentions callee

/-- The first name means a function in whose body the second one is called. -/
def Leads (s : FrameStack) (caller callee : String) : Prop :=
  ∃ f, s.function? caller = some f ∧ f.Mentions callee

/-- The name means a function that is called in its own body, or in that of a function that is called
there, and so on. -/
def Recursive (s : FrameStack) (name : String) : Prop := Relation.TransGen s.Leads name name

/-- The names on the way from a recursive function to itself are a circle. -/
theorem circle_of_recursive (s : FrameStack) (name : String) :
    s.Circle fun x => Relation.TransGen s.Leads name x ∧ Relation.TransGen s.Leads x name := by
  rintro x ⟨hto, hfrom⟩
  obtain ⟨y, ⟨f, hf, hmentions⟩, hrest⟩ := Relation.TransGen.head'_iff.mp hfrom
  have hy : Relation.TransGen s.Leads name y := hto.tail ⟨f, hf, hmentions⟩
  rcases Relation.reflTransGen_iff_eq_or_transGen.mp hrest with rfl | hback
  · exact ⟨f, hf, name, ⟨hy, hy⟩, hmentions⟩
  · exact ⟨f, hf, y, ⟨hy, hback⟩, hmentions⟩

theorem depth_pos_of_function? {s : FrameStack} {name : String} {f : Function}
    (h : s.function? name = some f) : 0 < s.depth := by
  obtain ⟨frame, hframe, -⟩ := List.exists_of_findSome?_eq_some h
  exact List.length_pos_of_mem hframe

/-! ## Where functions stay -/

section

variable {s s' : FrameStack}

theorem SameFunctions.flat (h : SameFunctions s s') (hflat : s.Flat) : s'.Flat :=
  fun f hf => hflat f (h.stored f hf)

theorem SameFunctions.circle {circle : String → Prop} (h : SameFunctions s s')
    (hcircle : s.Circle circle) : s'.Circle circle := by
  intro name hname
  obtain ⟨f, hf, hcallee⟩ := hcircle name hname
  exact ⟨f, (h.named name).trans hf, hcallee⟩

theorem Flat.declare {f : Function} (hflat : s.Flat) (hf : ∀ t ∈ f.body, t.isDeclaration = false) :
    (s.declare f).Flat := by
  intro g hg
  rcases eq_or_stores_of_declare hg with rfl | hg
  · exact hf
  · exact hflat g hg

end

end FrameStack

open FrameStack (SameFunctions)

namespace Machine

variable {commands : Registry σ}

section

variable {m m' : Machine σ}

theorem sameFunctions_of_evaluate {e : Expr} {r : Except RuntimeError Value}
    (h : evaluate commands e m = (r, m')) : SameFunctions m.frames m'.frames := by
  have hsame := (evaluate_moves commands e m).sameFunctions id
  rwa [h] at hsame

theorem sameFunctions_of_evaluateEach {es : List Expr} {r : Except RuntimeError (List Value)}
    (h : evaluateEach commands es m = (r, m')) : SameFunctions m.frames m'.frames := by
  have hentry := entryWithin_moves commands (maxCallDepth + 1 - m.depth)
  have hsame := (Expr.evaluateAll_moves hentry es m).sameFunctions id
  change SameFunctions m.frames (evaluateEach commands es m).2.frames at hsame
  rwa [h] at hsame

theorem sameFunctions_setParameters (params : List Parameter) (values : List Value) (m : Machine σ) :
    SameFunctions m.frames (setParameters params values m).frames := by
  unfold setParameters
  induction params.zip values generalizing m with
  | nil => exact .refl _
  | cons pv pvs ih =>
    have hset := SameFunctions.set pv.1.name pv.2 m.frames
    rw [← frames_set] at hset
    exact hset.trans (ih _)

variable (commands) in
theorem sameFunctions_execute {s : Statement} (h : s.isDeclaration = false) (m : Machine σ) :
    SameFunctions m.frames (execute commands s m).2.frames := by
  have hentry := entryWithin_moves commands (maxCallDepth + 1 - m.depth)
  refine (Statement.execute_moves_declaring commands hentry s m).sameFunctions ?_
  rintro ⟨place, name, params, body, rfl⟩
  exact nomatch h

theorem sameFunctions_of_executeAll {ss : List Statement} {r : Except RuntimeError Unit}
    (hss : ∀ s ∈ ss, s.isDeclaration = false) (h : executeAll commands ss m = (r, m'))
    (hpos : 0 < m.depth) : SameFunctions m.frames m'.frames := by
  have hsame := executeAll_induction commands (R := fun m m' => SameFunctions m.frames m'.frames)
    (fun m => .refl m.frames) (fun _ _ _ => SameFunctions.trans)
    (fun s hs => sameFunctions_execute commands (hss s hs)) hpos
  rwa [h] at hsame

/-- Where evaluation comes to a part of an expression, the functions are those there were before. -/
theorem Reaches.sameFunctions {e e' : Expr} (h : Reaches commands e m e' m') :
    SameFunctions m.frames m'.frames := by
  induction h with
  | here e m => exact .refl _
  | assigned _ ih | negated _ ih | left _ ih => exact ih
  | right hleft _ ih => exact (sameFunctions_of_evaluate hleft).trans ih
  | argument _ hbefore _ ih => exact (sameFunctions_of_evaluateEach hbefore).trans ih

theorem StatementReaches.sameFunctions {s : Statement} {e : Expr}
    (h : StatementReaches commands s m e m') : SameFunctions m.frames m'.frames := by
  cases h with
  | expression h => exact h.sameFunctions
  | argument _ hbefore h => exact (sameFunctions_of_evaluateEach hbefore).trans h.sameFunctions

/-- A body begins with the functions that its caller sees. -/
theorem Calls.sameFunctions {e : Expr} {f : Function} (h : Calls commands e m f m') :
    SameFunctions m.frames m'.frames := by
  obtain ⟨-, hargs⟩ := h
  rename_i name args m₁ values
  have hpush : SameFunctions m₁.frames (m₁.note (.called f)).push.frames := .push m₁.frames
  have hbegins := (sameFunctions_of_evaluateEach hargs).trans hpush
  exact hbegins.trans (sameFunctions_setParameters f.params values _)

end

/-! ## Nothing is left out -/

mutual

/-- An expression with a value has had each of its parts evaluated. -/
theorem exists_reaches : ∀ (e : Expr) {part : Expr} {m m' : Machine σ} {v : Value}, 0 < m.depth →
    evaluate commands e m = (.ok v, m') → part ∈ e.parts → ∃ m₁, Reaches commands e m part m₁
  | .literal value, part, m, m', v, _, _, hpart => by
    rw [Expr.parts, List.mem_singleton] at hpart
    exact ⟨m, hpart ▸ .here _ m⟩
  | .variable name, part, m, m', v, _, _, hpart => by
    rw [Expr.parts, List.mem_singleton] at hpart
    exact ⟨m, hpart ▸ .here _ m⟩
  | .assign name value, part, m, m', v, hpos, h, hpart => by
    rw [Expr.parts, List.mem_cons] at hpart
    rcases hpart with rfl | hpart
    · exact ⟨m, .here _ m⟩
    rw [evaluate_assign] at h
    obtain ⟨v', m₁, hvalue, -⟩ := Action.bind_eq_ok_iff.mp h
    obtain ⟨m₂, hreaches⟩ := exists_reaches value hpos hvalue hpart
    exact ⟨m₂, .assigned hreaches⟩
  | .negate e, part, m, m', v, hpos, h, hpart => by
    rw [Expr.parts, List.mem_cons] at hpart
    rcases hpart with rfl | hpart
    · exact ⟨m, .here _ m⟩
    rw [evaluate_negate] at h
    obtain ⟨v', m₁, he, -⟩ := Action.bind_eq_ok_iff.mp h
    obtain ⟨m₂, hreaches⟩ := exists_reaches e hpos he hpart
    exact ⟨m₂, .negated hreaches⟩
  | .binary left op right, part, m, m', v, hpos, h, hpart => by
    rw [Expr.parts, List.mem_cons, List.mem_append] at hpart
    rcases hpart with rfl | hpart
    · exact ⟨m, .here _ m⟩
    rw [evaluate_binary commands _ _ _ hpos] at h
    obtain ⟨l, m₁, hleft, h⟩ := Action.bind_eq_ok_iff.mp h
    obtain ⟨r, m₂, hright, -⟩ := Action.bind_eq_ok_iff.mp h
    have hdepth := depth_of_evaluate hleft hpos
    rcases hpart with hpart | hpart
    · obtain ⟨m₃, hreaches⟩ := exists_reaches left hpos hleft hpart
      exact ⟨m₃, .left hreaches⟩
    · obtain ⟨m₃, hreaches⟩ := exists_reaches right (hdepth.symm ▸ hpos) hright hpart
      exact ⟨m₃, .right hleft hreaches⟩
  | .call name args, part, m, m', v, hpos, h, hpart => by
    rw [Expr.parts, List.mem_cons] at hpart
    rcases hpart with rfl | hpart
    · exact ⟨m, .here _ m⟩
    rcases raises_or_admits commands name args m with ⟨f, hraises⟩ | ⟨f, hadmits⟩
    · exact nomatch congrArg Prod.fst ((evaluate_of_raises hpos hraises).symm.trans h)
    rw [evaluate_call_of_admits hpos hadmits] at h
    obtain ⟨values, m₁, hargs, -⟩ := Action.bind_eq_ok_iff.mp h
    obtain ⟨before, arg, after, values, m₁, m₂, rfl, hbefore, hreaches⟩ :=
      exists_reaches_argument args (m := m.note (.soughtFunction name)) hpos hargs hpart
    exact ⟨m₂, .argument hadmits hbefore hreaches⟩

theorem exists_reaches_argument : ∀ (es : List Expr) {part : Expr} {m m' : Machine σ}
    {vs : List Value}, 0 < m.depth → evaluateEach commands es m = (.ok vs, m') →
      part ∈ Expr.partsOfAll es → ∃ before arg after values m₁ m₂, es = before ++ arg :: after ∧
        evaluateEach commands before m = (.ok values, m₁) ∧ Reaches commands arg m₁ part m₂
  | [], part, m, m', vs, _, _, hpart => by
    rw [Expr.partsOfAll] at hpart
    exact nomatch hpart
  | e :: es, part, m, m', vs, hpos, h, hpart => by
    obtain ⟨v, m₁, rest, he, hes, rfl⟩ := (evaluateEach_cons_eq_ok_iff commands hpos).mp h
    have hdepth := depth_of_evaluate he hpos
    rw [Expr.partsOfAll, List.mem_append] at hpart
    rcases hpart with hpart | hpart
    · obtain ⟨m₂, hreaches⟩ := exists_reaches e hpos he hpart
      exact ⟨[], e, es, [], m, m₂, rfl, evaluateEach_nil commands m, hreaches⟩
    · obtain ⟨before, arg, after, values, m₂, m₃, rfl, hbefore, hreaches⟩ :=
        exists_reaches_argument es (hdepth.symm ▸ hpos) hes hpart
      have hfirst : evaluateEach commands (e :: before) m = (.ok (v :: values), m₂) :=
        (evaluateEach_cons_eq_ok_iff commands hpos).mpr ⟨v, m₁, values, he, hbefore, rfl⟩
      exact ⟨e :: before, arg, after, v :: values, m₂, m₃, rfl, hfirst, hreaches⟩

end

/-- A statement that ends well has had each part of its expressions evaluated. -/
theorem exists_statementReaches {s : Statement} {e part : Expr} {m m' : Machine σ}
    (hpos : 0 < m.depth) (h : Machine.execute commands s m = (.ok (), m')) (he : e ∈ s.expressions)
    (hpart : part ∈ e.parts) : ∃ m₁, StatementReaches commands s m part m₁ := by
  cases s with
  | command place name args =>
    rw [execute_command] at h
    cases hc : commands.find? name with
    | none =>
      rw [hc] at h
      exact nomatch congrArg Prod.fst h
    | some c =>
      rw [hc] at h
      obtain ⟨values, m₁, hargs, -⟩ := Action.bind_eq_ok_iff.mp h
      have hparts : part ∈ Expr.partsOfAll args := Expr.mem_partsOfAll_iff.mpr ⟨e, he, hpart⟩
      obtain ⟨before, arg, after, values, m₁, m₂, rfl, hbefore, hreaches⟩ :=
        exists_reaches_argument args (m := m.note _) hpos hargs hparts
      exact ⟨m₂, .argument hc hbefore hreaches⟩
  | expression place inner =>
    obtain rfl := List.mem_singleton.mp he
    rw [execute_expression] at h
    obtain ⟨v, m₁, hinner, -⟩ := Action.bind_eq_ok_iff.mp h
    obtain ⟨m₂, hreaches⟩ := exists_reaches e (m := m.note _) hpos hinner hpart
    exact ⟨m₂, .expression hreaches⟩
  | declaration place name params body => exact nomatch he

/-! ## What a run comes to -/

variable (commands) in
/-- Run from the first machine, the statements come to evaluate the expression from the second one, in
one of them or in the body of a function that is called. -/
inductive ComesTo : List Statement → Machine σ → Expr → Machine σ → Prop
  | own {before after : List Statement} {s : Statement} {e : Expr} {m m₁ m' : Machine σ}
      (hbefore : executeAll commands before m = (.ok (), m₁))
      (h : StatementReaches commands s m₁ e m') : ComesTo (before ++ s :: after) m e m'
  | called {before after : List Statement} {s : Statement} {e : Expr} {m m₁ m₂ m' : Machine σ}
      {f : Function} (hbefore : executeAll commands before m = (.ok (), m₁))
      (henters : Enters commands s m₁ f m₂) (h : ComesTo f.body m₂ e m') :
      ComesTo (before ++ s :: after) m e m'

/-- What comes to an error ends with one. -/
theorem ComesTo.executeAll_of_error {ss : List Statement} {e : Expr} {m m' m'' : Machine σ}
    {error : RuntimeError} (h : ComesTo commands ss m e m')
    (herror : evaluate commands e m' = (.error error, m'')) : 0 < m.depth →
      ∃ error m₁, executeAll commands ss m = (.error error, m₁) := by
  induction h with
  | own hbefore h =>
    intro hpos
    have hdepth := depth_of_executeAll hbefore hpos
    obtain ⟨m₁, hs⟩ := h.execute_of_error (hdepth.symm ▸ hpos) herror
    exact ⟨_, m₁, (executeAll_eq_error_iff hpos).mpr ⟨_, _, _, _, _, rfl, hbefore, hs, rfl⟩⟩
  | called hbefore henters _ ih =>
    intro hpos
    have hdepth := depth_of_executeAll hbefore hpos
    have hpos₁ := hdepth.symm ▸ hpos
    obtain ⟨error, m₁, hbody⟩ := ih herror (henters.depth hpos₁ ▸ Nat.succ_pos _)
    obtain ⟨m₂, hs⟩ := henters.execute hpos₁ hbody
    exact ⟨_, m₂, (executeAll_eq_error_iff hpos).mpr ⟨_, _, _, _, _, rfl, hbefore, hs, rfl⟩⟩

theorem exists_of_executeAll_ok {before after : List Statement} {s : Statement} {m m' : Machine σ}
    (hpos : 0 < m.depth) (h : executeAll commands (before ++ s :: after) m = (.ok (), m')) :
    ∃ m₁ m₂, executeAll commands before m = (.ok (), m₁) ∧
      Machine.execute commands s m₁ = (.ok (), m₂) := by
  rw [executeAll_append] at h
  obtain ⟨_, m₁, hbefore, h⟩ := Action.bind_eq_ok_iff.mp h
  have hdepth := depth_of_executeAll hbefore hpos
  rw [executeAll_cons commands s after (hdepth.symm ▸ hpos)] at h
  rcases hs : Machine.execute commands s m₁ with ⟨e | _, m₂⟩
  · rw [hs] at h
    exact nomatch congrArg Prod.fst h
  · exact ⟨m₁, m₂, hbefore, hs⟩

/-! ## Calls into a circle -/

/-- A body without declarations that ends well has come to every call in it, with the functions that
there were at its beginning and as deep in the stack. -/
theorem exists_comesTo_of_mentions {f : Function} (hflat : ∀ t ∈ f.body, t.isDeclaration = false)
    {callee : String} (hmentions : f.Mentions callee) {m m' : Machine σ} (hpos : 0 < m.depth)
    (h : executeAll commands f.body m = (.ok (), m')) :
    ∃ args m₁, ComesTo commands f.body m (.call callee args) m₁ ∧ m₁.depth = m.depth ∧
      SameFunctions m.frames m₁.frames := by
  obtain ⟨s, hs, e, he, args, hpart⟩ := hmentions
  obtain ⟨before, after, hsplit⟩ := List.append_of_mem hs
  rw [hsplit] at h
  obtain ⟨m₁, m₂, hbefore, hexecute⟩ := exists_of_executeAll_ok hpos h
  have hdepth := depth_of_executeAll hbefore hpos
  have hpos₁ : 0 < m₁.depth := hdepth.symm ▸ hpos
  obtain ⟨m₃, hreaches⟩ := exists_statementReaches hpos₁ hexecute he hpart
  have hplain : ∀ t ∈ before, t.isDeclaration = false := fun t ht =>
    hflat t (hsplit ▸ List.mem_append_left _ ht)
  have hfirst := sameFunctions_of_executeAll hplain hbefore hpos
  exact ⟨args, m₃, hsplit ▸ .own hbefore hreaches, (hreaches.depth hpos₁).trans hdepth,
    hfirst.trans hreaches.sameFunctions⟩

/-- A call that has a value has run the body of its function to its end. -/
theorem exists_body_of_evaluate_call {name : String} {args : List Expr} {m m' : Machine σ} {v : Value}
    (hpos : 0 < m.depth) (h : evaluate commands (.call name args) m = (.ok v, m')) :
    ∃ f m₁ m₂, m.Admits name args.length f ∧ Calls commands (.call name args) m f m₁ ∧
      executeAll commands f.body m₁ = (.ok (), m₂) := by
  rcases raises_or_admits commands name args m with ⟨failure, hraises⟩ | ⟨f, hadmits⟩
  · exact nomatch congrArg Prod.fst ((evaluate_of_raises hpos hraises).symm.trans h)
  rw [evaluate_call_of_admits hpos hadmits] at h
  obtain ⟨values, m₁, hargs, h⟩ := Action.bind_eq_ok_iff.mp h
  have hcalls := Calls.call hadmits hargs
  rcases hbody : executeAll commands f.body (setParameters f.params values
    (m₁.note (.called f)).push) with ⟨error | _, m₂⟩
  · have herror := evaluate_of_calls hpos hcalls hbody
    rw [evaluate_call_of_admits hpos hadmits, Action.bind_of_ok hargs, h] at herror
    exact nomatch congrArg Prod.fst herror
  · exact ⟨f, _, m₂, hadmits, hcalls, hbody⟩

/-- A call of a function of a circle fails, whatever its arguments are and wherever in the stack the
circle is declared. -/
theorem evaluate_call_of_circle (commands : Registry σ) {m : Machine σ} {circle : String → Prop}
    (hflat : m.frames.Flat) (hcircle : m.frames.Circle circle) {name : String} (hname : circle name)
    (args : List Expr) : ∃ error m', evaluate commands (.call name args) m = (.error error, m') := by
  -- The induction is on the frames that the stack may still grow by: the call in the body has one less.
  induction hroom : maxCallDepth + 1 - m.depth using Nat.strongRecOn generalizing m name args with
  | ind room ih =>
    obtain ⟨f, hf, callee, hcallee, hmentions⟩ := hcircle name hname
    have hpos : 0 < m.depth := FrameStack.depth_pos_of_function? hf
    rcases hr : evaluate commands (.call name args) m with ⟨error | v, m'⟩
    · exact ⟨error, m', rfl⟩
    exfalso
    obtain ⟨g, m₁, m₂, hadmits, hcalls, hbody⟩ := exists_body_of_evaluate_call hpos hr
    obtain rfl : f = g := Option.some.inj (hf.symm.trans hadmits.found)
    have hdepth : m₁.depth = m.depth + 1 := hcalls.depth hpos
    have hplain := hflat f (FrameStack.stores_of_function? hf)
    obtain ⟨args', m₃, hcomes, hdepth₃, hsame⟩ :=
      exists_comesTo_of_mentions hplain hmentions (by omega) hbody
    have hfunctions := hcalls.sameFunctions.trans hsame
    have hless : maxCallDepth + 1 - m₃.depth < room := by
      have := hadmits.room
      omega
    obtain ⟨error, m₄, herror⟩ := ih _ hless (hfunctions.flat hflat) (hfunctions.circle hcircle)
      hcallee args' rfl
    obtain ⟨error', m₅, hfails⟩ := hcomes.executeAll_of_error herror (by omega)
    exact nomatch congrArg Prod.fst (hbody.symm.trans hfails)

/-! ## Runs that declare functions -/

theorem body_eq_nil {s : Statement} (h : s.isDeclaration = false) : s.body = [] := by
  cases s with
  | command | expression => rfl
  | declaration => exact nomatch h

variable (commands) in
theorem flat_execute {s : Statement} (hs : ∀ t ∈ s.body, t.isDeclaration = false) {m : Machine σ}
    (hflat : m.frames.Flat) : (Machine.execute commands s m).2.frames.Flat := by
  cases s with
  | command | expression => exact (sameFunctions_execute commands rfl m).flat hflat
  | declaration place name params body =>
    have hdeclare := FrameStack.Flat.declare (f := ⟨name, params, body⟩) hflat hs
    rw [Machine.execute, Statement.execute]
    change (Machine.declare _ (m.note _)).frames.Flat
    rw [frames_declare]
    exact hdeclare

/-- A stack without functions inside functions stays one where no declaration has one. -/
theorem flat_of_executeAll {ss : List Statement} {m m' : Machine σ} {r : Except RuntimeError Unit}
    (hss : ∀ s ∈ ss, ∀ t ∈ s.body, t.isDeclaration = false) (h : executeAll commands ss m = (r, m'))
    (hpos : 0 < m.depth) (hflat : m.frames.Flat) : m'.frames.Flat := by
  have hkept := executeAll_induction commands (R := fun m m' => m.frames.Flat → m'.frames.Flat)
    (fun _ => id) (fun _ _ _ => fun h h' => h' ∘ h)
    (fun s hs m => flat_execute commands (hss s hs)) hpos
  rw [h] at hkept
  exact hkept hflat

theorem Enters.sameFunctions {s : Statement} {m m' : Machine σ} {f : Function}
    (h : Enters commands s m f m') : SameFunctions m.frames m'.frames := by
  obtain ⟨e, m₁, hreaches, hcalls⟩ := h
  exact hreaches.sameFunctions.trans hcalls.sameFunctions

theorem Enters.stores {s : Statement} {m m' : Machine σ} {f : Function}
    (h : Enters commands s m f m') : m.frames.Stores f := by
  obtain ⟨e, m₁, hreaches, hcalls⟩ := h
  obtain ⟨hadmits, -⟩ := hcalls
  exact hreaches.sameFunctions.stored f (FrameStack.stores_of_function? hadmits.found)

/-- Wherever a run comes to, there are no functions inside functions if there are none where it begins
and in what it declares. -/
theorem ComesTo.flat {ss : List Statement} {e : Expr} {m m' : Machine σ}
    (h : ComesTo commands ss m e m') : (∀ s ∈ ss, ∀ t ∈ s.body, t.isDeclaration = false) →
      0 < m.depth → m.frames.Flat → m'.frames.Flat := by
  induction h with
  | own hbefore h =>
    intro hss hpos hflat
    have hfirst := flat_of_executeAll (fun s hs => hss s (List.mem_append_left _ hs)) hbefore hpos hflat
    exact h.sameFunctions.flat hfirst
  | called hbefore henters _ ih =>
    intro hss hpos hflat
    have hfirst := flat_of_executeAll (fun s hs => hss s (List.mem_append_left _ hs)) hbefore hpos hflat
    have hpos₁ := (depth_of_executeAll hbefore hpos).symm ▸ hpos
    refine ih (fun t ht u hu => ?_) (henters.depth hpos₁ ▸ Nat.succ_pos _)
      (henters.sameFunctions.flat hfirst)
    rw [body_eq_nil (hfirst _ henters.stores t ht)] at hu
    exact nomatch hu

/-- A run that ends well comes to no call of a recursive function. -/
theorem ComesTo.not_recursive {ss : List Statement} {name : String} {args : List Expr}
    {m m' m'' : Machine σ} (h : ComesTo commands ss m (.call name args) m')
    (hss : ∀ s ∈ ss, ∀ t ∈ s.body, t.isDeclaration = false) (hpos : 0 < m.depth)
    (hflat : m.frames.Flat) (hok : executeAll commands ss m = (.ok (), m'')) :
    ¬m'.frames.Recursive name := by
  intro hrecursive
  obtain ⟨error, m₁, herror⟩ := evaluate_call_of_circle commands (h.flat hss hpos hflat)
    (m'.frames.circle_of_recursive name) ⟨hrecursive, hrecursive⟩ args
  obtain ⟨error', m₂, hfails⟩ := h.executeAll_of_error herror hpos
  exact nomatch congrArg Prod.fst (hok.symm.trans hfails)

end Machine

end CommandScript
