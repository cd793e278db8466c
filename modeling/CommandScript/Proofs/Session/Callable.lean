import CommandScript.Proofs.Machine.Recursion
import CommandScript.Proofs.Printing.RoundTrip
import CommandScript.Proofs.Session.History

/-!
Which functions can be called. Any word names a function where one is declared, but behind an exclamation
mark only a word that is no number and does not begin with a dollar sign does; any other one is negated. The
main statement is that a declared function with such a name can be called with as many arguments as it has
parameters, and that no script calls a function with another name.
-/

namespace CommandScript
set_option autoImplicit false

open CommandScript.Parser (isName)

/-! ## Texts of calls -/

/-- The number one so many times. -/
def ones (count : Nat) : List Expr := List.replicate count (.literal (.number 1))

def callText (name : String) (count : Nat) : String :=
  "!" ++ name ++ String.join (List.replicate count " 1")

theorem sourceOfAll_ones (count : Nat) :
    Expr.sourceOfAll (ones count) = String.join (List.replicate count " 1") := by
  induction count with
  | zero => rfl
  | succ n ih =>
    have hone : " " ++ (Expr.literal (.number 1)).source = " 1" := by decide +kernel
    change " " ++ (Expr.literal (.number 1)).source ++ Expr.sourceOfAll (ones n) = _
    rw [ih, hone, List.replicate_succ, String.join_cons]

theorem source_call_ones (place : Location) (name : String) (count : Nat) :
    Script.source [.expression place (.call name (ones count))] = callText name count := by
  change "!" ++ name ++ Expr.sourceOfAll (ones count) = _
  rw [sourceOfAll_ones]
  rfl

section

variable {name : String}

theorem forall_mem_ones {P : Expr → Prop} (h : P (.literal (.number 1))) (count : Nat) :
    ∀ e ∈ ones count, P e := by
  intro e he
  rwa [List.eq_of_mem_replicate he]

theorem readable_call_ones (hword : IsWord name) (hname : isName name) (place : Location)
    (count : Nat) : (Statement.expression place (.call name (ones count))).Readable True := by
  have hfinite : (1 : Float).isFinite := by decide +kernel
  have hpositive : ¬(Expr.literal (.number 1)).IsNegative := by decide +kernel
  have hprint : (Expr.call name (ones count)).Printable := by
    refine .call (forall_mem_ones (.number hfinite) count) fun e he => ?_
    exact forall_mem_ones (P := (¬·.IsNegative)) hpositive count e (List.mem_of_mem_tail he)
  have hargs : Expr.depthOfAll (ones count) ≤ 1 :=
    Expr.depthOfAll_le_iff.mpr (forall_mem_ones (Nat.le_refl 1) count)
  have hdepth : (Expr.call name (ones count)).depth ≤ 127 := by
    rw [Expr.depth]
    omega
  have hprintable : (Statement.expression place (.call name (ones count))).Printable :=
    .expression trivial hprint hdepth
  have hliteral (v : Literal) : Expr.call name (ones count) ≠ .literal v := by
    intro h
    cases h
  exact ⟨.expression (.call hword hname (forall_mem_ones .literal count)) hliteral,
    Statement.steady_of_printable _ hprintable, fun _ => hprintable⟩

/-- A script that is one expression without its place is one with it. -/
theorem Statement.eq_expression_of_unplacedAll {ss : List Statement} {e : Expr}
    (h : unplacedAll ss = [.expression .start e]) : ∃ place, ss = [.expression place e] := by
  match ss with
  | [.expression place e'] =>
    cases h
    exact ⟨place, rfl⟩
  | [] | .command _ _ _ :: _ | .declaration _ _ _ _ :: _ | .expression _ _ :: _ :: _ => cases h

/-- The text of a call is read as the call. -/
theorem parse_callText (hword : IsWord name) (hname : isName name) (count : Nat) :
    ∃ place, Script.parse (callText name count) =
      .ok [.expression place (.call name (ones count))] := by
  have hreadable := readable_call_ones hword hname .start count
  have hanswers := Script.answers_of_readable (List.forall_mem_singleton.mpr hreadable)
  obtain ⟨again, c, hrun, -, -, hagain⟩ := hanswers.of_strict (Script.atFront_lexemes _)
  rw [source_call_ones] at hrun
  obtain ⟨place, rfl⟩ := Statement.eq_expression_of_unplacedAll hagain
  refine ⟨place, ?_⟩
  unfold Script.parse Script.ofLexemes
  rw [hrun]
  rfl

end

/-! ## Which functions are called in scripts -/

/-- Some script has a call of the name, in the body of a function perhaps. -/
def Callable (name : String) : Prop :=
  ∃ source script, Script.parse source = .ok script ∧
    ∃ s ∈ script.statements, ∃ e ∈ s.expressions, ∃ args, .call name args ∈ e.parts

theorem Callable.isName {name : String} (h : Callable name) : isName name := by
  obtain ⟨source, script, hparse, s, hs, e, he, args, hpart⟩ := h
  have hwell : ∀ s ∈ script.statements, s.WellFormed := by
    refine Statement.forall_mem_partsOfAll ?_ script (Script.parse_wellFormed hparse)
    exact fun s hs t ht => (hs.body t ht).1
  obtain ⟨-, hdollar, hnumber⟩ := Expr.namedWell_of_mem_parts e ((hwell s hs).expressions e he) _ hpart
  unfold Parser.isName
  rw [Bool.and_eq_true, decide_eq_true_eq, Option.isNone_iff_eq_none]
  exact ⟨hdollar, hnumber⟩

theorem callable_of_parse {source : String} {place : Location} {name : String} {args : List Expr}
    (h : Script.parse source = .ok [.expression place (.call name args)]) : Callable name :=
  ⟨source, _, h, _, List.mem_cons_self, _, List.mem_cons_self, args, List.mem_cons_self⟩

theorem callable_iff {name : String} (hword : IsWord name) : Callable name ↔ isName name := by
  refine ⟨Callable.isName, fun hname => ?_⟩
  obtain ⟨place, hparse⟩ := parse_callText hword hname 0
  exact callable_of_parse hparse

/-! ## Calls of functions that are there -/

namespace Machine

variable {σ : Type} (commands : Registry σ)

theorem evaluateEach_ones (count : Nat) {m : Machine σ} (hpos : 0 < m.depth) :
    evaluateEach commands (ones count) m = (.ok (List.replicate count (.number 1)), m) := by
  induction count with
  | zero => exact evaluateEach_nil commands m
  | succ n ih =>
    have hone : evaluate commands (.literal (.number 1)) m = (.ok (.number 1), m) := by
      rw [evaluate, Expr.evaluate]
      rfl
    exact (evaluateEach_cons_eq_ok_iff commands hpos).mpr ⟨_, m, _, hone, ih, rfl⟩

/-- A call of a function that is there enters it. -/
theorem executeAll_call_ones {name : String} {f : Function} {m : Machine σ}
    (hf : m.frames.function? name = some f) (hroom : m.depth ≤ maxCallDepth) (place : Location) :
    ∃ m', m'.frames = m.frames ∧ m'.host = m.host ∧
      let r := enter commands f (List.replicate f.arity (.number 1)) m'
      executeAll commands [.expression place (.call name (ones f.arity))] m =
        (r.1.mapError (·.atLine place.line), r.2) := by
  have hpos : 0 < m.depth := FrameStack.depth_pos_of_function? hf
  let e := Expr.call name (ones f.arity)
  let noted := m.note (.interpreting (.expression place e))
  let m' := noted.note (.soughtFunction name)
  refine ⟨m', rfl, rfl, ?_⟩
  have hadmits : noted.Admits name (ones f.arity).length f := ⟨hf, List.length_replicate.symm, hroom⟩
  have hargs := evaluateEach_ones commands f.arity (m := m') hpos
  have hcall : evaluate commands e noted =
      (enter commands f (List.replicate f.arity (.number 1)) >>= fun _ => pure .null) m' := by
    rw [evaluate_call_of_admits (m := noted) hpos hadmits, Action.bind_of_ok hargs]
  rw [executeAll_cons commands _ _ hpos, execute_expression, Action.bind_apply]
  change _ = let r := enter commands f (List.replicate f.arity (.number 1)) m'
    (r.1.mapError (·.atLine place.line), r.2)
  rcases hr : enter commands f (List.replicate f.arity (.number 1)) m' with ⟨error | _, m''⟩
  · have herror : evaluate commands e noted = (.error error, m'') := by
      rw [hcall]
      exact Action.bind_eq_error_iff.mpr (.inl hr)
    rw [herror]
    rfl
  · have hok : evaluate commands e noted = (.ok .null, m'') :=
      hcall.trans (Action.bind_of_ok hr)
    have hdepth : m''.depth = m.depth := depth_of_evaluate (m := noted) hok hpos
    rw [hok]
    exact executeAll_nil commands (hdepth.symm ▸ hpos)

end Machine

/-! ## Calls in sessions -/

namespace Session

/-- Where a function with the name is there, the text of a call enters it. -/
theorem feed_callText {σ : Type} {s : Session σ} {name : String} {f : Function} {place : Location}
    (hparse : Script.parse (callText name f.arity) = .ok [.expression place (.call name (ones f.arity))])
    (hf : s.machine.frames.function? name = some f) (hroom : s.machine.depth ≤ maxCallDepth) :
    ∃ m, m.frames = s.machine.frames ∧ m.host = s.machine.host ∧
      let r := Machine.enter s.commands f (List.replicate f.arity (.number 1)) m
      s.feed (callText name f.arity) =
        (r.1.mapError fun e => .runtime (e.atLine place.line), { s with machine := r.2 }) := by
  have hframes := read_frames (callText name f.arity) s
  rw [← hframes] at hf
  have hdepth : (s.read (callText name f.arity)).2.machine.depth ≤ maxCallDepth := by
    rwa [Machine.depth, hframes]
  obtain ⟨m, hm, hhost, hcall⟩ := Machine.executeAll_call_ones s.commands hf hdepth place
  refine ⟨m, hm.trans hframes, hhost.trans (read_host _ s), ?_⟩
  intro r
  rw [feed, readAnd_of_ok _ hparse, hcall]
  change (((r.1.mapError (·.atLine place.line)).mapError ScriptError.runtime), _) = _
  cases r.1 <;> rfl

/-- A declared function can be called if its name is a name behind an exclamation mark too, and no script
calls it if not. In a session in which its declaration is the latest one that was run under its name, a call
with as many arguments as the function has parameters comes to its body. -/
theorem declared_callable {source : String} {script : Script} (hparse : Script.parse source = .ok script)
    {place : Location} {name : String} {params : List Parameter} {body : List Statement}
    (hdeclared : .declaration place name params body ∈ script) :
    let f : Function := ⟨name, params, body⟩
    (Callable name ↔ isName name) ∧
      (isName name → ∃ place, Script.parse (callText name f.arity) =
          .ok [.expression place (.call name (ones f.arity))] ∧
        ∀ (σ : Type) (commands : Registry σ) (host : σ) (journal : Option (List Event))
          (inputs : List Input),
          let start : Session σ := ⟨commands, .start host journal⟩
          let s := (start.takeEach inputs).2
          latest (start.declaredByEach inputs) name = some f →
            ∃ m, s.machine.frames.function? name = some f ∧ m.frames = s.machine.frames ∧
              m.host = s.machine.host ∧
              let r := Machine.enter s.commands f (List.replicate f.arity (.number 1)) m
              s.feed (callText name f.arity) =
                (r.1.mapError fun e => .runtime (e.atLine place.line), { s with machine := r.2 })) := by
  intro f
  have hword : IsWord name := by
    cases Script.parse_wellFormed hparse _ hdeclared with
    | declaration hword => exact hword
  refine ⟨callable_iff hword, fun hname => ?_⟩
  obtain ⟨place, hcall⟩ := parse_callText hword hname f.arity
  refine ⟨place, hcall, fun σ commands host journal inputs => ?_⟩
  intro start s hlatest
  have hf : s.machine.frames.function? name = some f := by
    have hnames : s.machine.frames.function? name = _ := function?_takeEach inputs start name
    rw [hnames, hlatest]
    rfl
  have hroom : s.machine.depth ≤ maxCallDepth := by
    have hdepth : s.machine.depth = _ := depth_takeEach inputs (s := start) (Nat.zero_le 1)
    rw [hdepth]
    split
    · decide
    · exact Nat.zero_le _
  obtain ⟨m, hm⟩ := feed_callText hcall hf hroom
  exact ⟨m, hf, hm⟩

/-! ## Two declarations -/

/-- The name and the parameters, if the statement is a declaration. -/
def declaredHead (s : Statement) : Option (String × List Parameter) :=
  s.function?.map fun f => (f.name, f.params)

theorem exists_declaration_of_head {source name : String} {params : List Parameter}
    (h : (Script.parse source).toOption.map (List.map declaredHead) = some [some (name, params)]) :
    ∃ place body, Script.parse source = .ok [.declaration place name params body] := by
  cases hparse : Script.parse source with
  | error e =>
    rw [hparse] at h
    cases h
  | ok script =>
    rw [hparse] at h
    obtain ⟨s, rfl, hs⟩ := List.map_eq_singleton_iff.mp (Option.some.inj h)
    cases s with
    | declaration place name' params' body =>
      cases hs
      exact ⟨place, body, rfl⟩
    | command | expression => cases hs

/-- A function with two parameters. -/
def twoParameters : String := "function shown(number $a, text b) \x7b echo $a $b \x7d"

theorem declared_callable_twoParameters :
    let params : List Parameter := [⟨"number", "a"⟩, ⟨"text", "b"⟩]
    ∃ script place body, Script.parse twoParameters = .ok script ∧
      .declaration place "shown" params body ∈ script ∧ Callable "shown" ∧
      ∃ place, Script.parse "!shown 1 1" = .ok [.expression place (.call "shown" (ones 2))] ∧
        let f : Function := ⟨"shown", params, body⟩
        let s := ((⟨Registry.empty, .start () none⟩ : Session Unit).takeEach [.feed twoParameters]).2
        ∃ m, s.machine.frames.function? "shown" = some f ∧ m.frames = s.machine.frames ∧
          m.host = s.machine.host ∧
          let r := Machine.enter s.commands f [.number 1, .number 1] m
          s.feed "!shown 1 1" =
            (r.1.mapError fun e => .runtime (e.atLine place.line), { s with machine := r.2 }) := by
  intro params
  obtain ⟨place, body, hparse⟩ :=
    @exists_declaration_of_head twoParameters "shown" params (by decide +kernel)
  have htext : callText "shown" 2 = "!shown 1 1" := by decide +kernel
  have hname : isName "shown" := by decide +kernel
  have hlatest : latest (declaredByEach [.feed twoParameters] ⟨Registry.empty, .start () none⟩) "shown" =
      some ⟨"shown", params, body⟩ := by
    rw [declaredByEach, declaredBy_feed hparse]
    rfl
  obtain ⟨hcallable, hcalls⟩ := declared_callable hparse List.mem_cons_self
  obtain ⟨place', hcall, hsession⟩ := hcalls hname
  have hfeed := hsession Unit Registry.empty () none [.feed twoParameters] hlatest
  change Script.parse (callText "shown" 2) = _ at hcall
  change ∃ m, _ ∧ _ ∧ _ ∧ Session.feed (callText "shown" 2) _ = _ at hfeed
  rw [htext] at hcall hfeed
  exact ⟨_, place, body, hparse, List.mem_cons_self, hcallable.mpr hname, place', hcall, hfeed⟩

/-- A function that is named by a number, which is negated behind an exclamation mark. -/
theorem declared_number_not_called :
    ∃ script place body, Script.parse "function 5() \x7b \x7d" = .ok script ∧
      .declaration place "5" [] body ∈ script ∧ ¬Callable "5" ∧
      ∀ place, Script.parse "!5" ≠ .ok [.expression place (.call "5" [])] := by
  obtain ⟨place, body, hparse⟩ :=
    @exists_declaration_of_head "function 5() \x7b \x7d" "5" [] (by decide +kernel)
  have hnot : ¬Callable "5" := fun h => absurd h.isName (by decide +kernel)
  exact ⟨_, place, body, hparse, List.mem_cons_self, hnot, fun _ hcall => hnot (callable_of_parse hcall)⟩

end Session

end CommandScript
