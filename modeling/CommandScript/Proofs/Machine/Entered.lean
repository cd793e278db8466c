import CommandScript.Proofs.Machine.Recursion

/-!
What the journal tells of calls. It is told of a function before the body of the function begins, and at
no other time; so wherever the journal has a function, the code came to a call that entered it. The main
statement is that statements tell the journal of no other functions.
-/

namespace CommandScript
set_option autoImplicit false

variable {σ α β : Type}

/-- The function that an event says is called. -/
def Event.called? : Event → Option Function
  | .called f => some f
  | _ => none

namespace Machine

/-! ## Journals that grow -/

/-- The second journal, if there is one, is the first one with later events, and every function that
these say was called is such. -/
def Tells (called : Function → Prop) (m m' : Machine σ) : Prop :=
  ∃ news, m'.journal = m.journal.map (news ++ ·) ∧ ∀ f, .called f ∈ news → called f

namespace Tells

variable {called called' : Function → Prop} {m m' m'' : Machine σ}

theorem of_journal_eq (h : m'.journal = m.journal) : Tells called m m' :=
  ⟨[], h.trans Option.map_id'.symm, nofun⟩

theorem refl (m : Machine σ) : Tells called m m := of_journal_eq rfl

theorem trans (h : Tells called m m') (h' : Tells called m' m'') : Tells called m m'' := by
  obtain ⟨news, hm, hcalled⟩ := h
  obtain ⟨later, hm', hcalled'⟩ := h'
  refine ⟨later ++ news, ?_, fun f hf => ?_⟩
  · rw [hm', hm, Option.map_map]
    exact Option.map_congr fun events _ => (List.append_assoc later news events).symm
  · exact (List.mem_append.mp hf).elim (hcalled' f) (hcalled f)

theorem weaken (h : Tells called m m') (hcalled : ∀ f, called f → called' f) :
    Tells called' m m' := by
  obtain ⟨news, hm, hnews⟩ := h
  exact ⟨news, hm, fun f hf => hcalled f (hnews f hf)⟩

theorem note {e : Event} (h : e.called? = none) (m : Machine σ) : Tells called m (m.note e) := by
  refine ⟨[e], rfl, fun f hf => ?_⟩
  obtain rfl := List.mem_singleton.mp hf
  exact nomatch h

theorem note_called {f : Function} (h : called f) (m : Machine σ) :
    Tells called m (m.note (.called f)) := by
  refine ⟨[.called f], rfl, fun g hg => ?_⟩
  cases List.mem_singleton.mp hg
  exact h

theorem push (m : Machine σ) : Tells called m m.push := note rfl { m with frames := m.frames.push }

theorem pop (m : Machine σ) : Tells called m m.pop := note rfl { m with frames := m.frames.pop }

theorem ensureRoot (m : Machine σ) : Tells called m m.ensureRoot := by
  obtain ⟨⟨_ | ⟨f, fs⟩⟩, host, journal⟩ := m
  · exact push _
  · exact refl _

theorem set (name : String) (v : Value) (m : Machine σ) : Tells called m (m.set name v) :=
  (note rfl m).trans (ensureRoot (m.note (.set name v)))

theorem declare (f : Function) (m : Machine σ) : Tells called m (m.declare f) :=
  (note rfl m).trans (ensureRoot (m.note (.declared f)))

theorem setParameters (params : List Parameter) (values : List Value) (m : Machine σ) :
    Tells called m (setParameters params values m) := by
  unfold CommandScript.setParameters
  induction params.zip values generalizing m with
  | nil => exact refl m
  | cons pv pvs ih => exact (set pv.1.name pv.2 m).trans (ih _)

theorem bind {act : Action σ α} {next : α → Action σ β} (h : Tells called m (act m).2)
    (hnext : ∀ a m₁, act m = (.ok a, m₁) → Tells called m₁ (next a m₁).2) :
    Tells called m ((act >>= next) m).2 := by
  rw [Action.bind_apply]
  rcases hact : act m with ⟨e | a, m₁⟩
  · rw [hact] at h
    exact h
  · rw [hact] at h
    exact h.trans (hnext a m₁ hact)

theorem invoke (c : Command σ) (values : List Value) (m : Machine σ) :
    Tells called m (Action.invoke c values m).2 := by
  unfold Action.invoke
  cases c.bind values with
  | error f => exact refl m
  | ok args => exact note rfl m

end Tells

/-! ## Functions that are entered -/

variable (commands : Registry σ)

/-- Run from the machine, the statements come to a call that enters the function. -/
def Entered (ss : List Statement) (m : Machine σ) (f : Function) : Prop :=
  ∃ name args m₁ m₂, ComesTo commands ss m (.call name args) m₁ ∧
    Calls commands (.call name args) m₁ f m₂

/-- The call enters the function, or the body does that it enters. -/
def CallEnters (call : Expr) (m : Machine σ) (f : Function) : Prop :=
  ∃ g m₁, Calls commands call m g m₁ ∧ (f = g ∨ Entered commands g.body m₁ f)

variable {commands}

/-- What the statements behind a first one come to, all of them do. -/
theorem ComesTo.cons {s : Statement} {ss : List Statement} {e : Expr} {m m₁ m' : Machine σ}
    (hpos : 0 < m.depth) (hs : Machine.execute commands s m = (.ok (), m₁))
    (h : ComesTo commands ss m₁ e m') : ComesTo commands (s :: ss) m e m' := by
  have hfirst {before : List Statement} {m₂ : Machine σ}
      (hbefore : executeAll commands before m₁ = (.ok (), m₂)) :
      executeAll commands (s :: before) m = (.ok (), m₂) := by
    rw [executeAll_cons commands s before hpos, hs]
    exact hbefore
  cases h with
  | own hbefore hreaches =>
    rw [← List.cons_append]
    exact .own (hfirst hbefore) hreaches
  | called hbefore henters h =>
    rw [← List.cons_append]
    exact .called (hfirst hbefore) henters h

theorem Entered.cons {s : Statement} {ss : List Statement} {m m₁ : Machine σ} {f : Function}
    (hpos : 0 < m.depth) (hs : Machine.execute commands s m = (.ok (), m₁))
    (h : Entered commands ss m₁ f) : Entered commands (s :: ss) m f := by
  obtain ⟨name, args, m₂, m₃, hcomes, hcalls⟩ := h
  exact ⟨name, args, m₂, m₃, hcomes.cons hpos hs, hcalls⟩

theorem entered_of_callEnters {s : Statement} {ss : List Statement} {e : Expr} {m m₁ : Machine σ}
    {f : Function} (hpos : 0 < m.depth) (hreaches : StatementReaches commands s m e m₁)
    (h : CallEnters commands e m₁ f) : Entered commands (s :: ss) m f := by
  have hbefore : executeAll commands [] m = (.ok (), m) := executeAll_nil commands hpos
  obtain ⟨g, m₂, hcalls, rfl | ⟨name, args, m₃, m₄, hcomes, hcalls'⟩⟩ := h
  · obtain ⟨hadmits, hargs⟩ := hcalls
    exact ⟨_, _, m₁, _, .own hbefore hreaches, .call hadmits hargs⟩
  · exact ⟨name, args, m₃, m₄, .called hbefore ⟨e, m₁, hreaches, hcalls⟩ hcomes, hcalls'⟩

/-! ## What is told of calls -/

variable (commands) in
/-- The functions that evaluating the expression from the machine enters. -/
def EnteredIn (e : Expr) (m : Machine σ) (f : Function) : Prop :=
  ∃ e' m₁, Reaches commands e m e' m₁ ∧ CallEnters commands e' m₁ f

variable (commands) in
/-- The functions that evaluating the expressions, one after the other, enters. -/
def EnteredInEach (es : List Expr) (m : Machine σ) (f : Function) : Prop :=
  ∃ before arg after values m₁, es = before ++ arg :: after ∧
    evaluateEach commands before m = (.ok values, m₁) ∧ EnteredIn commands arg m₁ f

variable (commands) in
/-- What runs one frame above the depth, where the stack may grow so far, tells the journal of no call
but those that it comes to. -/
def TellAbove (d : Nat) : Prop :=
  ∀ (ss : List Statement) (m : Machine σ), d ≤ maxCallDepth → m.depth = d + 1 →
    Tells (Entered commands ss m) m (executeAll commands ss m).2

variable {d : Nat}

theorem enter_tells (hbodies : TellAbove commands d) {f : Function} {call : Expr} {m m₁ : Machine σ}
    {values : List Value} (hdepth : m.depth = d) (hpos : 0 < m.depth) (hroom : m.depth ≤ maxCallDepth)
    (hcalls : Calls commands call m f (setParameters f.params values (m₁.note (.called f)).push)) :
    Tells (CallEnters commands call m) m₁ (enter commands f values m₁).2 := by
  have hbegins := hcalls.depth hpos
  have hbody := hbodies f.body _ (hdepth ▸ hroom) (hdepth ▸ hbegins)
  unfold enter
  simp only [Action.bind_apply, Action.change, Action.inNewFrame]
  refine (Tells.note_called ⟨f, _, hcalls, .inl rfl⟩ m₁).trans ((Tells.push _).trans ?_)
  refine (Tells.setParameters f.params values _).trans (Tells.trans ?_ (Tells.pop _))
  exact hbody.weaken fun g hg => ⟨f, _, hcalls, .inr hg⟩

mutual

theorem evaluate_tells (hbodies : TellAbove commands d) : ∀ (e : Expr) {m : Machine σ},
    m.depth = d → 0 < m.depth → Tells (EnteredIn commands e m) m (evaluate commands e m).2
  | .literal value, m, _, _ => by
    rw [evaluate, Expr.evaluate]
    exact .refl m
  | .variable name, m, _, _ => by
    rw [evaluate, Expr.evaluate]
    exact .note rfl m
  | .assign name value, m, hdepth, hpos => by
    rw [evaluate_assign]
    refine .bind ?_ fun v m₁ _ => .set name v m₁
    refine (evaluate_tells hbodies value hdepth hpos).weaken ?_
    rintro f ⟨e', m₁, hreaches, henters⟩
    exact ⟨e', m₁, .assigned hreaches, henters⟩
  | .negate e, m, hdepth, hpos => by
    rw [evaluate_negate]
    refine .bind ?_ fun v m₁ _ => ?_
    · refine (evaluate_tells hbodies e hdepth hpos).weaken ?_
      rintro f ⟨e', m₁, hreaches, henters⟩
      exact ⟨e', m₁, .negated hreaches, henters⟩
    · cases v <;> exact .refl m₁
  | .binary left op right, m, hdepth, hpos => by
    rw [evaluate_binary commands _ _ _ hpos]
    refine .bind ?_ fun l m₁ hleft => .bind ?_ fun r m₂ _ => .refl m₂
    · refine (evaluate_tells hbodies left hdepth hpos).weaken ?_
      rintro f ⟨e', m₁, hreaches, henters⟩
      exact ⟨e', m₁, .left hreaches, henters⟩
    · have hkept := depth_of_evaluate hleft hpos
      refine (evaluate_tells hbodies right (by omega) (by omega)).weaken ?_
      rintro f ⟨e', m₂, hreaches, henters⟩
      exact ⟨e', m₂, .right hleft hreaches, henters⟩
  | .call name args, m, hdepth, hpos => by
    rcases raises_or_admits commands name args m with ⟨failure, hraises⟩ | ⟨f, hadmits⟩
    · rw [evaluate_of_raises hpos hraises]
      exact .note rfl m
    rw [evaluate_call_of_admits hpos hadmits]
    refine (Tells.note rfl m).trans (.bind ?_ fun values m₁ hargs => .bind ?_ fun _ m₂ _ => .refl m₂)
    · refine (evaluateEach_tells hbodies args (m := m.note _) hdepth hpos).weaken ?_
      rintro g ⟨before, arg, after, values, m₁, rfl, hbefore, e', m₂, hreaches, henters⟩
      exact ⟨e', m₂, .argument hadmits hbefore hreaches, henters⟩
    · refine (enter_tells hbodies hdepth hpos hadmits.room (.call hadmits hargs)).weaken ?_
      exact fun g henters => ⟨_, m, .here _ m, henters⟩

theorem evaluateEach_tells (hbodies : TellAbove commands d) : ∀ (es : List Expr) {m : Machine σ},
    m.depth = d → 0 < m.depth → Tells (EnteredInEach commands es m) m (evaluateEach commands es m).2
  | [], m, _, _ => by
    rw [evaluateEach_nil]
    exact .refl m
  | e :: es, m, hdepth, hpos => by
    rw [evaluateEach_cons commands _ _ hpos]
    refine .bind ?_ fun v m₁ he => .bind ?_ fun vs m₂ _ => .refl m₂
    · refine (evaluate_tells hbodies e hdepth hpos).weaken fun f hf => ?_
      exact ⟨[], e, es, [], m, rfl, evaluateEach_nil commands m, hf⟩
    · have hkept := depth_of_evaluate he hpos
      refine (evaluateEach_tells hbodies es (by omega) (by omega)).weaken ?_
      rintro f ⟨before, arg, after, values, m₂, rfl, hbefore, hf⟩
      have hfirst : evaluateEach commands (e :: before) m = (.ok (v :: values), m₂) :=
        (evaluateEach_cons_eq_ok_iff commands hpos).mpr ⟨v, m₁, values, he, hbefore, rfl⟩
      exact ⟨e :: before, arg, after, v :: values, m₂, rfl, hfirst, hf⟩

end

theorem execute_tells (hbodies : TellAbove commands d) (s : Statement) (ss : List Statement)
    {m : Machine σ} (hdepth : m.depth = d) (hpos : 0 < m.depth) :
    Tells (Entered commands (s :: ss) m) m (Machine.execute commands s m).2 := by
  cases s with
  | command place name args =>
    rw [execute_command]
    cases hc : commands.find? name with
    | none => exact .note rfl m
    | some c =>
      refine (Tells.note rfl m).trans (.bind ?_ fun values m₁ _ => ?_)
      · refine (evaluateEach_tells hbodies args (m := m.note _) hdepth hpos).weaken ?_
        rintro f ⟨before, arg, after, values, m₁, rfl, hbefore, e', m₂, hreaches, henters⟩
        exact entered_of_callEnters hpos (.argument hc hbefore hreaches) henters
      · exact .bind (.note rfl m₁) fun _ m₂ _ => .invoke c values m₂
  | expression place e =>
    rw [execute_expression]
    refine (Tells.note rfl m).trans (.bind ?_ fun _ m₁ _ => .refl m₁)
    refine (evaluate_tells hbodies e (m := m.note _) hdepth hpos).weaken ?_
    rintro f ⟨e', m₁, hreaches, henters⟩
    exact entered_of_callEnters hpos (.expression hreaches) henters
  | declaration place name params body =>
    rw [Machine.execute, Statement.execute]
    exact (Tells.note rfl m).trans (.declare _ _)

theorem TellAbove.executeAll (hbodies : TellAbove commands d) (ss : List Statement) {m : Machine σ}
    (hdepth : m.depth = d) (hpos : 0 < m.depth) :
    Tells (Entered commands ss m) m (Machine.executeAll commands ss m).2 := by
  induction ss generalizing m with
  | nil =>
    rw [executeAll_nil commands hpos]
    exact .refl m
  | cons s ss ih =>
    have hs := execute_tells hbodies s ss hdepth hpos
    rw [executeAll_cons commands s ss hpos]
    rcases hr : Machine.execute commands s m with ⟨e | _, m₁⟩
    · rw [hr] at hs
      exact hs
    · rw [hr] at hs
      have hkept := depth_of_execute hr hpos
      have hrest := ih (m := m₁) (by omega) (by omega)
      exact hs.trans (hrest.weaken fun f hf => hf.cons hpos hr)

/-- Statements tell the journal of no call but those that they come to. -/
theorem executeAll_tells (commands : Registry σ) (ss : List Statement) {m : Machine σ}
    (hpos : 0 < m.depth) : Tells (Entered commands ss m) m (executeAll commands ss m).2 := by
  induction hroom : maxCallDepth + 1 - m.depth using Nat.strongRecOn generalizing ss m with
  | ind room ih =>
    have habove : TellAbove commands m.depth := fun ss' m' hle hdepth =>
      ih _ (by omega) ss' (by omega) rfl
    exact habove.executeAll ss rfl hpos

end Machine

end CommandScript
