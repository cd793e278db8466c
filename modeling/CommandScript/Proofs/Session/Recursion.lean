import CommandScript.Proofs.Machine.CallChain
import CommandScript.Proofs.Machine.Entered
import CommandScript.Proofs.Session.History

/-!
Recursion in sessions. A parsed script declares no functions inside functions, so no stack of a session
has any, and what fails on such stacks fails in sessions. The main statement is that a call into a
circle of functions fails, and that an input which is taken without an error has come to no such call;
what it has come to is what the journal is told of.
-/

namespace CommandScript
set_option autoImplicit false

variable {σ : Type}

/-! ## Scripts and the frames they begin in -/

theorem Script.plain_body_of_parse {source : String} {script : Script}
    (h : Script.parse source = .ok script) :
    ∀ s ∈ script, ∀ t ∈ s.body, t.isDeclaration = false :=
  fun s hs t ht => ((Script.parse_wellFormed h s hs).body t ht).2

/-- The machine on which the statements of a script begin: in a new frame, or in that of the session. -/
def Input.opening : Input → Machine σ → Machine σ
  | .run _, m => m.push
  | .feed _, m => m.ensureRoot

theorem Input.depth_opening_pos (input : Input) (m : Machine σ) : 0 < (input.opening m).depth := by
  cases input with
  | run source => exact Nat.succ_pos _
  | feed source => exact m.depth_ensureRoot_pos

theorem Input.flat_opening (input : Input) {m : Machine σ} (h : m.frames.Flat) :
    (input.opening m).frames.Flat := by
  intro f hf
  refine h f ?_
  cases input with
  | run source => exact FrameStack.stores_push_iff.mp hf
  | feed source =>
    rw [opening, Machine.frames_ensureRoot] at hf
    exact FrameStack.stores_ensureRoot_iff.mp hf

namespace Session

variable {s : Session σ}

/-- An input ends as its statements do where they begin. -/
theorem result_take_of_ok (input : Input) {script : Script}
    (h : Script.parse input.source = .ok script) (s : Session σ) :
    (s.take input).1 = (Machine.executeAll s.commands script
      (input.opening (s.read input.source).2.machine)).1.mapError .runtime := by
  cases input with
  | run source =>
    dsimp only [Input.source] at h ⊢
    change (s.readAnd (Machine.run s.commands) source).1 = _
    rw [readAnd_of_ok _ h]
    rfl
  | feed source =>
    dsimp only [Input.source] at h ⊢
    change (s.readAnd (Machine.executeAll s.commands) source).1 = _
    rw [readAnd_of_ok _ h, Input.opening, Machine.executeAll_ensureRoot]

theorem machine_take_run {source : String} {script : Script} (h : Script.parse source = .ok script) :
    (s.take (.run source)).2.machine =
      (Machine.executeAll s.commands script (s.read source).2.machine.push).2.pop := by
  change (s.readAnd (Machine.run s.commands) source).2.machine = _
  rw [readAnd_of_ok _ h]
  rfl

/-! ## What the journal is told -/

theorem tells_read {called : Function → Prop} (source : String) (s : Session σ) :
    Machine.Tells called s.machine (s.read source).2.machine := by
  have hlexed : Machine.Tells called s.machine (s.machine.note (.lexed (lexemes source).length)) :=
    .note rfl s.machine
  unfold read
  dsimp only
  cases Script.ofLexemes (lexemes source) with
  | error e => exact hlexed
  | ok script => exact hlexed.trans (.note rfl _)

/-- A script that is taken tells the journal of no call but those that its statements come to. -/
theorem tells_take (input : Input) {script : Script} (h : Script.parse input.source = .ok script)
    (s : Session σ) :
    Machine.Tells (Machine.Entered s.commands script (input.opening (s.read input.source).2.machine))
      s.machine (s.take input).2.machine := by
  have hscript := Machine.executeAll_tells s.commands script
    (input.depth_opening_pos (s.read input.source).2.machine)
  cases input with
  | run source =>
    dsimp only [Input.source, Input.opening] at h hscript ⊢
    rw [machine_take_run h]
    exact (tells_read source s).trans ((Machine.Tells.push _).trans (hscript.trans (.pop _)))
  | feed source =>
    dsimp only [Input.source, Input.opening] at h hscript ⊢
    rw [machine_take_feed h, ← Machine.executeAll_ensureRoot]
    exact (tells_read source s).trans ((Machine.Tells.ensureRoot _).trans hscript)

/-! ## No functions inside functions -/

theorem flat_take (input : Input) (h : s.machine.frames.Flat) :
    (s.take input).2.machine.frames.Flat := by
  cases hparse : Script.parse input.source with
  | error e =>
    rw [take_of_error hparse]
    exact h
  | ok script =>
    cases input with
    | run source =>
      rw [frames_take_run]
      exact h
    | feed source =>
      dsimp only [Input.source] at hparse
      have hread : (s.read source).2.machine.frames.Flat := (read_frames source s).symm ▸ h
      rw [machine_take_feed hparse, ← Machine.executeAll_ensureRoot]
      exact Machine.flat_of_executeAll (Script.plain_body_of_parse hparse) rfl
        (Machine.depth_ensureRoot_pos _) ((Input.feed source).flat_opening hread)

theorem flat_takeEach (inputs : List Input) (h : s.machine.frames.Flat) :
    (s.takeEach inputs).2.machine.frames.Flat := by
  induction inputs generalizing s with
  | nil => exact h
  | cons input inputs ih => exact ih (flat_take input h)

/-- Whatever was taken before, a call of a function of a circle fails; so an input that is taken without
an error has come to no call of a recursive function, on whatever stack that call found it. The journal
is told of no calls but those that an input comes to. -/
theorem recursion_fails (commands : Registry σ) :
    (∀ (m : Machine σ) (circle : String → Prop), m.frames.Flat → m.frames.Circle circle →
      ∀ name, circle name → ∀ args, ∃ error m',
        Machine.evaluate commands (.call name args) m = (.error error, m')) ∧
    ∀ host journal inputs,
      let s : Session σ := (Session.takeEach inputs ⟨commands, .start host journal⟩).2
      s.machine.frames.Flat ∧
      ∀ input script, Script.parse input.source = .ok script →
        let opening := input.opening (s.read input.source).2.machine
        (∀ e m', Machine.ComesTo s.commands script opening e m' → m'.frames.Flat) ∧
        Machine.Tells (Machine.Entered s.commands script opening) s.machine
          (s.take input).2.machine ∧
        ((s.take input).1 = .ok () → ∀ name args m',
          Machine.ComesTo s.commands script opening (.call name args) m' →
            ¬m'.frames.Recursive name) := by
  refine ⟨fun m circle hflat hcircle name hname args =>
    Machine.evaluate_call_of_circle commands hflat hcircle hname args, ?_⟩
  intro host journal inputs s
  have hstart : (Machine.start host journal).frames.Flat :=
    fun f hf => absurd hf (FrameStack.not_stores_empty f)
  have hflat : s.machine.frames.Flat := flat_takeEach inputs hstart
  refine ⟨hflat, fun input script hparse => ?_⟩
  intro opening
  have hplain := Script.plain_body_of_parse hparse
  have hpos : 0 < opening.depth := input.depth_opening_pos _
  have hopening : opening.frames.Flat :=
    input.flat_opening ((read_frames input.source s).symm ▸ hflat)
  refine ⟨fun e m' h => h.flat hplain hpos hopening, tells_take input hparse s, ?_⟩
  intro hok name args m' h
  rw [result_take_of_ok input hparse] at hok
  rcases hrun : Machine.executeAll s.commands script opening with ⟨error | _, m''⟩
  · change (Machine.executeAll s.commands script opening).1.mapError _ = _ at hok
    rw [hrun] at hok
    exact nomatch hok
  · exact h.not_recursive hplain hpos hopening hrun

/-- A machine with two functions that call each other, one of them in an assignment under a negation. -/
def eachOther : Machine Unit :=
  ((Machine.start () none).push.declare ⟨"f", [], [.expression ⟨1, 1⟩ (.call "g" [])]⟩).declare
    ⟨"g", [], [.expression ⟨2, 1⟩ (.negate (.assign "x" (.call "f" [])))]⟩

theorem flat_eachOther : eachOther.frames.Flat := by
  have hstart : (Machine.start () none).push.frames.Flat := fun f hf =>
    absurd (FrameStack.stores_push_iff.mp hf) (FrameStack.not_stores_empty f)
  rw [eachOther, Machine.frames_declare, Machine.frames_declare]
  exact (hstart.declare (by decide)).declare (by decide)

theorem circle_eachOther : eachOther.frames.Circle fun name => name = "f" ∨ name = "g" := by
  rintro name (rfl | rfl)
  · exact ⟨_, rfl, "g", .inr rfl, _, .head _, _, .head _, [], .head _⟩
  · exact ⟨_, rfl, "f", .inl rfl, _, .head _, _, .head _, [], .tail _ (.tail _ (.head _))⟩

/-- Whether the script is a call of the function, without arguments. -/
def callsOnly (name : String) : Script → Bool
  | [.expression _ (.call callee [])] => callee == name
  | _ => false

theorem eq_of_callsOnly {script : Script} {name : String} (h : callsOnly name script) :
    ∃ place, script = [.expression place (.call name [])] := by
  unfold callsOnly at h
  split at h
  · rename_i place callee
    obtain rfl : callee = name := beq_iff_eq.mp h
    exact ⟨place, rfl⟩
  · exact nomatch h

/-- Of two functions that call each other neither can be called; a session comes to a call of a function
that calls none. -/
theorem recursion_fails_eachOther :
    let s := (Session.takeEach [.feed "function f() \x7b $x = 1 \x7d"]
      ⟨Registry.empty, .start () none⟩).2
    (∃ error m', Machine.evaluate Registry.empty (.call "f" []) eachOther = (.error error, m')) ∧
      (s.take (.feed "!f")).1 = .ok () ∧ ∃ script, Script.parse "!f" = .ok script ∧ ∃ m',
        Machine.ComesTo s.commands script (s.read "!f").2.machine.ensureRoot (.call "f" []) m' ∧
          ¬m'.frames.Recursive "f" := by
  intro s
  obtain ⟨hfails, hsessions⟩ := recursion_fails (σ := Unit) Registry.empty
  have hok : (s.take (.feed "!f")).1 = .ok () := by decide +kernel
  refine ⟨hfails eachOther _ flat_eachOther circle_eachOther "f" (.inl rfl) [], hok, ?_⟩
  have hcall : (Script.parse "!f").toOption.any (callsOnly "f") := by decide +kernel
  cases hparse : Script.parse "!f" with
  | error e =>
    rw [hparse] at hcall
    exact nomatch hcall
  | ok script =>
    rw [hparse] at hcall
    obtain ⟨place, rfl⟩ := eq_of_callsOnly hcall
    let opening := (s.read "!f").2.machine.ensureRoot
    have hcomes : Machine.ComesTo s.commands ([] ++ .expression place (.call "f" []) :: []) opening
        (.call "f" []) _ :=
      .own (Machine.executeAll_nil _ (Machine.depth_ensureRoot_pos _)) (.expression (.here _ _))
    have htaken := (hsessions () none [.feed "function f() \x7b $x = 1 \x7d"]).2 (.feed "!f") _ hparse
    exact ⟨_, rfl, _, hcomes, htaken.2.2 hok "f" [] _ hcomes⟩

end Session

end CommandScript
