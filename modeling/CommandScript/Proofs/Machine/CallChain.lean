import Mathlib.Data.List.Chain
import CommandScript.Proofs.Machine.Faults

/-!
The chain of calls behind an error. A failure is raised below a chain of statements, of which each is in
the body of a function that the next one calls. The main statement is that the trace of an error has
the lines of this chain, and that its length tells how deep the stack was.
-/

namespace CommandScript
set_option autoImplicit false

variable {σ : Type}

namespace Machine

/-! ## Chains -/

variable (commands : Registry σ) in
/-- Run from the first machine, the statements end with the failure, which is raised at the second one
and ends the statements of the chain, the innermost first. -/
inductive FailsThrough : List Statement → Machine σ → Failure → Machine σ → List Statement → Prop
  | raised {before after : List Statement} {s : Statement} {m m₁ there : Machine σ} {f : Failure}
      (hbefore : executeAll commands before m = (.ok (), m₁))
      (h : StatementRaises commands s m₁ f there) :
      FailsThrough (before ++ s :: after) m f there [s]
  | called {before after : List Statement} {s : Statement} {m m₁ m₂ there : Machine σ} {f : Failure}
      {fn : Function} {chain : List Statement}
      (hbefore : executeAll commands before m = (.ok (), m₁)) (henters : Enters commands s m₁ fn m₂)
      (h : FailsThrough fn.body m₂ f there chain) :
      FailsThrough (before ++ s :: after) m f there (chain ++ [s])

variable {commands : Registry σ}

/-- A statement that fails ends a chain, and the statements above it in the chain are those in whose
lines the error came to it. -/
theorem exists_chain {s : Statement} {m m' : Machine σ} {error : RuntimeError} (hpos : 0 < m.depth)
    (h : Machine.execute commands s m = (.error error, m')) :
    ∃ there chain, error.trace = chain.map (·.place.line) ∧
      ∀ before after m₀, executeAll commands before m₀ = (.ok (), m) →
        FailsThrough commands (before ++ s :: after) m₀ error.failure there (chain ++ [s]) := by
  -- The induction is on the frames that the stack may still grow by: a body has one less.
  induction hroom : maxCallDepth + 1 - m.depth using Nat.strongRecOn
    generalizing s m m' error with
  | ind room ih =>
    rcases raises_or_enters hpos h with ⟨f, there, rfl, hraises⟩ | ⟨fn, m₁, m₂, henters, hbody⟩
    · exact ⟨there, [], rfl, fun before after m₀ hbefore => .raised hbefore hraises⟩
    · have hdepth := henters.depth hpos
      have hless := henters.room hpos
      have hpos₁ : 0 < m₁.depth := by omega
      obtain ⟨before, t, after, m₃, inner, hsplit, hbefore, ht, rfl⟩ :=
        (executeAll_eq_error_iff hpos₁).mp hbody
      have hdepth₃ := depth_of_executeAll hbefore hpos₁
      obtain ⟨there, chain, htrace, hchain⟩ :=
        ih (maxCallDepth + 1 - m₃.depth) (by omega) (by omega) ht rfl
      have hinner := hchain before after m₁ hbefore
      rw [← hsplit] at hinner
      refine ⟨there, chain ++ [t], ?_, fun before after m₀ hbefore => .called hbefore henters hinner⟩
      rw [List.map_append, ← htrace]
      rfl

namespace FailsThrough

variable {ss : List Statement} {m there : Machine σ} {f : Failure} {chain : List Statement}

/-- Statements that fail through a chain end with an error whose trace has the lines of the chain. -/
theorem executeAll (h : FailsThrough commands ss m f there chain) : 0 < m.depth →
    ∃ m', Machine.executeAll commands ss m = (.error ⟨f, chain.map (·.place.line)⟩, m') := by
  induction h with
  | raised hbefore h =>
    intro hpos
    have hdepth := depth_of_executeAll hbefore hpos
    obtain ⟨m', hs⟩ := h.execute (hdepth.symm ▸ hpos)
    exact ⟨m', (executeAll_eq_error_iff hpos).mpr ⟨_, _, _, _, _, rfl, hbefore, hs, rfl⟩⟩
  | called hbefore henters _ ih =>
    intro hpos
    have hdepth := depth_of_executeAll hbefore hpos
    have hpos₁ := hdepth.symm ▸ hpos
    obtain ⟨m₃, hbody⟩ := ih (henters.depth hpos₁ ▸ Nat.succ_pos _)
    obtain ⟨m', hs⟩ := henters.execute hpos₁ hbody
    refine ⟨m', (executeAll_eq_error_iff hpos).mpr ⟨_, _, _, _, _, rfl, hbefore, hs, ?_⟩⟩
    rw [List.map_append]
    rfl

/-! ### The depth of a chain -/

/-- The chain has one statement more than there are bodies that have been entered and not left. -/
theorem depth (h : FailsThrough commands ss m f there chain) :
    0 < m.depth → there.depth + 1 = m.depth + chain.length := by
  induction h with
  | raised hbefore h =>
    intro hpos
    have hdepth := depth_of_executeAll hbefore hpos
    rw [h.depth (hdepth.symm ▸ hpos), hdepth]
    rfl
  | called hbefore henters _ ih =>
    intro hpos
    have hdepth := depth_of_executeAll hbefore hpos
    have hdepth₂ := henters.depth (hdepth.symm ▸ hpos)
    have hchain := ih (hdepth₂ ▸ Nat.succ_pos _)
    rw [List.length_append, List.length_singleton]
    omega

theorem depth_le (h : FailsThrough commands ss m f there chain) :
    0 < m.depth → there.depth ≤ max m.depth (maxCallDepth + 1) := by
  induction h with
  | raised hbefore h =>
    intro hpos
    have hdepth := depth_of_executeAll hbefore hpos
    rw [h.depth (hdepth.symm ▸ hpos), hdepth]
    exact Nat.le_max_left _ _
  | called hbefore henters _ ih =>
    intro hpos
    have hdepth := depth_of_executeAll hbefore hpos
    have hpos₁ := hdepth.symm ▸ hpos
    have hdepth₂ := henters.depth hpos₁
    have hroom := henters.room hpos₁
    have hthere := ih (hdepth₂ ▸ Nat.succ_pos _)
    omega

theorem deep {name : String} (h : FailsThrough commands ss m f there chain)
    (hf : f = .callTooDeep name) : maxCallDepth < there.depth := by
  induction h with
  | raised hbefore h =>
    subst hf
    exact h.deep
  | called hbefore henters _ ih => exact ih hf

end FailsThrough

/-! ## The trace of an error -/

variable (commands) in
/-- The first statement is in the body of a function that an expression of the second one calls. -/
def CalledBy (inner outer : Statement) : Prop :=
  ∃ m f m', Enters commands outer m f m' ∧ inner ∈ f.body

theorem FailsThrough.last_mem {ss : List Statement} {m there : Machine σ} {f : Failure}
    {chain : List Statement} (h : FailsThrough commands ss m f there chain) :
    ∃ s ∈ ss, chain.getLast? = some s := by
  cases h with
  | @raised before after s => exact ⟨s, by simp, rfl⟩
  | @called before after s => exact ⟨s, by simp, List.getLast?_concat⟩

theorem FailsThrough.isChain {ss : List Statement} {m there : Machine σ} {f : Failure}
    {chain : List Statement} (h : FailsThrough commands ss m f there chain) :
    chain.IsChain (CalledBy commands) := by
  induction h with
  | raised hbefore h => exact List.isChain_singleton _
  | @called before after s m m₁ m₂ there f fn chain hbefore henters h ih =>
    obtain ⟨t, ht, hlast⟩ := h.last_mem
    refine List.isChain_append.mpr ⟨ih, List.isChain_singleton _, fun x hx y hy => ?_⟩
    obtain rfl : x = t := Option.some.inj (hx.symm.trans hlast)
    obtain rfl : s = y := Option.some.inj hy
    exact ⟨m₁, fn, m₂, henters, ht⟩

theorem exists_failsThrough {ss : List Statement} {m m' : Machine σ} {error : RuntimeError}
    (hpos : 0 < m.depth) (h : executeAll commands ss m = (.error error, m')) :
    ∃ there chain, FailsThrough commands ss m error.failure there chain ∧
      error.trace = chain.map (·.place.line) ∧
      ∃ before s after m₁ inner, ss = before ++ s :: after ∧ chain.getLast? = some s ∧
        executeAll commands before m = (.ok (), m₁) ∧
        Machine.execute commands s m₁ = (.error inner, m') := by
  obtain ⟨before, s, after, m₁, inner, rfl, hbefore, hs, rfl⟩ :=
    (executeAll_eq_error_iff hpos).mp h
  have hdepth := depth_of_executeAll hbefore hpos
  obtain ⟨there, chain, htrace, hchain⟩ := exists_chain (hdepth.symm ▸ hpos) hs
  refine ⟨there, chain ++ [s], hchain before after m hbefore, ?_,
    before, s, after, m₁, inner, rfl, List.getLast?_concat, hbefore, hs⟩
  rw [List.map_append, ← htrace]
  rfl

@[simp] theorem executeAll_ensureRoot (ss : List Statement) (m : Machine σ) :
    executeAll commands ss m.ensureRoot = executeAll commands ss m := by
  rw [executeAll, ensureRoot_of_depth_pos (depth_ensureRoot_pos m), executeAll]

/-- In a run on a stack without frames the trace is as long as the stack is deep where the failure is
raised. -/
theorem trace_length_of_run {ss : List Statement} {m m' : Machine σ} {error : RuntimeError}
    (hm : m.depth = 0) (h : run commands ss m = (.error error, m')) :
    error.trace.length ≤ maxCallDepth + 1 ∧
      ∀ name, error.failure = .callTooDeep name → error.trace.length = maxCallDepth + 1 := by
  have hdepth : m.push.depth = 1 := congrArg (· + 1) hm
  have hpos : 0 < m.push.depth := hdepth ▸ Nat.one_pos
  have hresult : (run commands ss m).1 = .error error := congrArg Prod.fst h
  have hbody : executeAll commands ss m.push =
      (.error error, (executeAll commands ss m.push).2) := Prod.ext hresult rfl
  obtain ⟨there, chain, hthrough, htrace, -⟩ := exists_failsThrough hpos hbody
  have hlength : there.depth + 1 = m.push.depth + chain.length := hthrough.depth hpos
  have hle : there.depth ≤ max m.push.depth (maxCallDepth + 1) := hthrough.depth_le hpos
  rw [htrace, List.length_map]
  refine ⟨by omega, fun name hname => ?_⟩
  have hdeep := hthrough.deep hname
  omega

/-- The error of a script has the lines of the chain of calls in which it was raised. The last one is
that of the first statement that fails, and the stack is as much deeper where the failure is raised as
there are other lines. -/
theorem trace_eq_chain (commands : Registry σ) (ss : List Statement) (m : Machine σ) :
    (∀ error m', executeAll commands ss m = (.error error, m') →
      ∃ there chain, FailsThrough commands ss m.ensureRoot error.failure there chain ∧
        error.trace = chain.map (·.place.line) ∧ chain.IsChain (CalledBy commands) ∧
        there.depth + 1 = m.ensureRoot.depth + error.trace.length ∧
        ∃ before s after m₁ inner, ss = before ++ s :: after ∧ chain.getLast? = some s ∧
          executeAll commands before m = (.ok (), m₁) ∧
          execute commands s m₁ = (.error inner, m')) ∧
    (m.depth = 0 → ∀ error m', run commands ss m = (.error error, m') →
      error.trace.length ≤ maxCallDepth + 1 ∧
        ∀ name, error.failure = .callTooDeep name → error.trace.length = maxCallDepth + 1) := by
  refine ⟨fun error m' h => ?_, fun hm error m' h => trace_length_of_run hm h⟩
  have hpos := depth_ensureRoot_pos m
  rw [← executeAll_ensureRoot] at h
  obtain ⟨there, chain, hthrough, htrace, before, s, after, m₁, inner, hss, hlast, hbefore, hs⟩ :=
    exists_failsThrough hpos h
  rw [executeAll_ensureRoot] at hbefore
  refine ⟨there, chain, hthrough, htrace, hthrough.isChain, ?_,
    before, s, after, m₁, inner, hss, hlast, hbefore, hs⟩
  rw [htrace, List.length_map]
  exact hthrough.depth hpos

/-- A function that calls a function whose body fails in its second statement. -/
def nestedCalls : List Statement :=
  [.declaration ⟨1, 1⟩ "inner" [] [.expression ⟨2, 3⟩ (.literal (.boolean true)),
      .command ⟨3, 3⟩ "missing" []],
    .declaration ⟨5, 1⟩ "outer" [] [.expression ⟨6, 3⟩ (.negate (.call "inner" []))],
    .expression ⟨8, 1⟩ (.assign "x" (.call "outer" []))]

theorem trace_eq_chain_nestedCalls :
    (∃ m', executeAll Registry.empty nestedCalls (start () none) =
        (.error ⟨.commandNotFound "missing", [3, 6, 8]⟩, m') ∧
      ∃ there chain, FailsThrough Registry.empty nestedCalls (start () none).ensureRoot
          (.commandNotFound "missing") there chain ∧
        [3, 6, 8] = chain.map (·.place.line) ∧ there.depth + 1 = 1 + 3) ∧
    ∃ m', run Registry.empty nestedCalls (start () none) =
        (.error ⟨.commandNotFound "missing", [3, 6, 8]⟩, m') ∧ 3 ≤ maxCallDepth + 1 := by
  have hchain := trace_eq_chain Registry.empty nestedCalls (start () none)
  constructor
  · have h : executeAll Registry.empty nestedCalls (start () none) =
        (.error ⟨.commandNotFound "missing", [3, 6, 8]⟩,
          (executeAll Registry.empty nestedCalls (start () none)).2) := Prod.ext (by rfl) rfl
    obtain ⟨there, chain, hthrough, htrace, -, hdepth, -⟩ := hchain.1 _ _ h
    exact ⟨_, h, there, chain, hthrough, htrace, hdepth⟩
  · have h : run Registry.empty nestedCalls (start () none) =
        (.error ⟨.commandNotFound "missing", [3, 6, 8]⟩,
          (run Registry.empty nestedCalls (start () none)).2) := Prod.ext (by rfl) rfl
    exact ⟨_, h, (hchain.2 rfl _ _ h).1⟩

end Machine

end CommandScript
