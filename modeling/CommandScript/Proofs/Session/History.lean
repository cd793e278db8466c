import CommandScript.Proofs.Machine.Assignments
import CommandScript.Proofs.Parser.Parts
import CommandScript.Proofs.Session.Reading
import CommandScript.Proofs.Termination.Limits

/-!
What a session is like after any inputs. Its stack has one frame once a script was fed to it and none
before; and a name means the function that was last declared under it by a statement of a fed script, if
the statements before that one have run to their end. So all functions in the frame are as the parser
has passed them.
-/

namespace CommandScript
set_option autoImplicit false

variable {σ : Type}

namespace Statement

/-! ## Statements that run to their end -/

/-- The function that a declaration declares. -/
def function? : Statement → Option Function
  | .declaration _ name params body => some ⟨name, params, body⟩
  | _ => none

section

variable (commands : Registry σ) (entry : Option (Entry σ))

/-- The statements before the first one that fails. -/
def completed : List Statement → Machine σ → List Statement
  | [], _ => []
  | s :: ss, m =>
    match s.execute commands entry m with
    | (.ok (), m') => s :: completed ss m'
    | (.error _, _) => []

/-- The completed statements run to their end, and either they are all or the next one fails. -/
theorem executeEach_completed (ss : List Statement) (m : Machine σ) :
    ∃ m', executeEach commands entry (completed commands entry ss m) m = (.ok (), m') ∧
      (completed commands entry ss m = ss ∨
        ∃ s more e m'', ss = completed commands entry ss m ++ s :: more ∧
          s.execute commands entry m' = (.error e, m'') ∧
            executeEach commands entry ss m = (.error (e.atLine s.place.line), m'')) := by
  induction ss generalizing m with
  | nil => exact ⟨m, rfl, .inl rfl⟩
  | cons s ss ih =>
    rw [completed]
    rcases hs : s.execute commands entry m with ⟨e | _, m'⟩
    · refine ⟨m, rfl, .inr ⟨s, ss, e, m', rfl, hs, ?_⟩⟩
      rw [executeEach, hs]
    · obtain ⟨m'', hrun, hend⟩ := ih m'
      refine ⟨m'', ?_, hend.imp (congrArg (s :: ·)) ?_⟩
      · dsimp only
        rw [executeEach, hs]
        exact hrun
      · rintro ⟨s', more, e, m₃, hss, hfails, hrun'⟩
        refine ⟨s', more, e, m₃, congrArg (s :: ·) hss, hfails, ?_⟩
        rw [executeEach, hs]
        exact hrun'

end

/-! ## The functions that are declared -/

variable {commands : Registry σ} {entry : Option (Entry σ)}

theorem function?_execute_of_none (commands : Registry σ) (hentry : Expr.EntryMoves entry)
    {s : Statement} (hs : s.function? = none) (m : Machine σ) (name : String) :
    (s.execute commands entry m).2.frames.function? name = m.frames.function? name := by
  refine ((execute_moves_declaring commands hentry s m).sameFunctions ?_).named name
  rintro ⟨place, name, params, body, rfl⟩
  exact nomatch hs

/-- A declaration never fails, and its name means its function then. -/
theorem execute_of_function? {s : Statement} {f : Function} (hs : s.function? = some f)
    (m : Machine σ) :
    s.execute commands entry m = (.ok (), (m.note (.interpreting s)).declare f) := by
  cases s with
  | declaration place name params body =>
    cases hs
    rfl
  | command | expression => exact nomatch hs

end Statement

/-- The last of the functions that has the name. -/
def latest (fs : List Function) (name : String) : Option Function :=
  fs.reverse.find? fun f => f.name == name

theorem latest_append (fs gs : List Function) (name : String) :
    latest (fs ++ gs) name = (latest gs name).or (latest fs name) := by
  unfold latest
  rw [List.reverse_append, List.find?_append]

theorem latest_cons (f : Function) (fs : List Function) (name : String) :
    latest (f :: fs) name = (latest fs name).or (if f.name = name then some f else none) := by
  rw [← List.singleton_append, latest_append]
  unfold latest
  rw [List.reverse_singleton, List.find?_singleton]
  simp only [beq_iff_eq]

theorem mem_of_latest {fs : List Function} {name : String} {f : Function}
    (h : latest fs name = some f) : f ∈ fs :=
  List.mem_reverse.mp (List.mem_of_find?_eq_some h)

namespace Statement

variable {commands : Registry σ} {entry : Option (Entry σ)}

/-- Behind statements that have all run to their end, a name means what the last declaration of it
says. -/
theorem function?_executeEach_of_ok (hentry : Expr.EntryMoves entry) (name : String)
    {ss : List Statement} {m m' : Machine σ} (h : executeEach commands entry ss m = (.ok (), m')) :
    m'.frames.function? name =
      (latest (ss.filterMap function?) name).or (m.frames.function? name) := by
  induction ss generalizing m with
  | nil =>
    cases h
    rfl
  | cons s ss ih =>
    rw [executeEach] at h
    cases hf : s.function? with
    | none =>
      have hkept := function?_execute_of_none commands hentry hf m name
      rw [List.filterMap_cons_none hf, ← hkept]
      rcases hs : s.execute commands entry m with ⟨e | _, m''⟩
      · rw [hs] at h
        cases h
      · rw [hs] at h
        exact ih h
    | some f =>
      rw [execute_of_function? hf] at h
      rw [List.filterMap_cons_some hf, latest_cons, ih h]
      by_cases hname : f.name = name <;> simp [hname]

/-- However statements end, a name means what its last declaration among the completed ones says. -/
theorem function?_executeEach (hentry : Expr.EntryMoves entry) (ss : List Statement)
    (m : Machine σ) (name : String) :
    (executeEach commands entry ss m).2.frames.function? name =
      (latest ((completed commands entry ss m).filterMap function?) name).or
        (m.frames.function? name) := by
  obtain ⟨m', hrun, hend⟩ := executeEach_completed commands entry ss m
  rw [← function?_executeEach_of_ok hentry name hrun]
  rcases hend with hall | ⟨s, more, e, m'', -, hfails, hrun'⟩
  · rw [hall] at hrun
    rw [hrun]
  · have hnone : s.function? = none := by
      cases hf : s.function? with
      | none => rfl
      | some f =>
        rw [execute_of_function? hf] at hfails
        exact nomatch hfails
    have hkept := function?_execute_of_none commands hentry hnone m' name
    rw [hfails] at hkept
    rw [hrun', ← hkept]

theorem mem_of_mem_completed (ss : List Statement) (m : Machine σ) :
    ∀ s ∈ completed commands entry ss m, s ∈ ss := by
  obtain ⟨-, -, hall | ⟨s, more, -, -, hss, -⟩⟩ := executeEach_completed commands entry ss m
  · rw [hall]
    exact fun _ h => h
  · intro s' hs'
    rw [hss]
    exact List.mem_append_left _ hs'

end Statement

/-! ## Inputs -/

/-- Whether the input is a script that is run in the frame of the session. -/
def Input.feedsScript : Input → Bool
  | .run _ => false
  | .feed source => (Script.parse source).toOption.isSome

namespace Session

/-- The functions that an input declares in the frame of the session: those of the declarations of a
script that is fed, before its first statement that fails. -/
def declaredBy : Input → Session σ → List Function
  | .run _, _ => []
  | .feed source, s =>
    match Script.parse source with
    | .ok script =>
      let m := (s.read source).2.machine.ensureRoot
      (Statement.completed s.commands (m.entry s.commands) script m).filterMap Statement.function?
    | .error _ => []

/-- The functions that inputs declare one after the other. -/
def declaredByEach : List Input → Session σ → List Function
  | [], _ => []
  | input :: inputs, s => declaredBy input s ++ declaredByEach inputs (s.take input).2

section

variable {input : Input} {source : String} {script : Script} {s : Session σ}

/-- A source that is no script tells the journal that it was read, and changes nothing else. -/
theorem take_of_error {e : ParseError} (h : Script.parse input.source = .error e) :
    s.take input = (.error (.parse e),
      { s with machine := s.machine.note (.lexed (lexemes input.source).length) }) := by
  have hread : (s.read input.source).2 =
      { s with machine := s.machine.note (.lexed (lexemes input.source).length) } := by
    unfold Script.parse at h
    unfold read
    dsimp only
    rw [h]
  rw [← hread]
  cases input with
  | run source => exact readAnd_of_error _ h
  | feed source => exact readAnd_of_error _ h

/-- What was run leaves no frame behind. -/
theorem frames_take_run (source : String) (s : Session σ) :
    (s.take (.run source)).2.machine.frames = s.machine.frames := by
  have hread := read_frames source s
  change (s.readAnd (Machine.run s.commands) source).2.machine.frames = _
  cases h : Script.parse source with
  | error e =>
    rw [readAnd_of_error _ h]
    exact hread
  | ok script =>
    rw [readAnd_of_ok _ h]
    exact (Machine.frames_run s.commands script _).trans hread

theorem machine_take_feed (h : Script.parse source = .ok script) :
    (s.take (.feed source)).2.machine =
      (Machine.executeAll s.commands script (s.read source).2.machine).2 := by
  change (s.readAnd (Machine.executeAll s.commands) source).2.machine = _
  rw [readAnd_of_ok _ h]

theorem feedsScript_feed (h : Script.parse source = .ok script) :
    (Input.feed source).feedsScript = true := by
  rw [Input.feedsScript, h]
  rfl

theorem feedsScript_of_error {e : ParseError} (h : Script.parse input.source = .error e) :
    input.feedsScript = false := by
  cases input with
  | run source => rfl
  | feed source =>
    dsimp only [Input.source] at h
    rw [Input.feedsScript, h]
    rfl

theorem declaredBy_feed (h : Script.parse source = .ok script) :
    declaredBy (.feed source) s =
      let m := (s.read source).2.machine.ensureRoot
      (Statement.completed s.commands (m.entry s.commands) script m).filterMap
        Statement.function? := by
  rw [declaredBy, h]

theorem declaredBy_of_error {e : ParseError} (h : Script.parse input.source = .error e) :
    declaredBy input s = [] := by
  cases input with
  | run source => rfl
  | feed source =>
    dsimp only [Input.source] at h
    rw [declaredBy, h]

theorem depth_ensureRoot {m : Machine σ} (h : m.depth ≤ 1) : m.ensureRoot.depth = 1 := by
  have hpos := m.depth_ensureRoot_pos
  obtain ⟨⟨_ | ⟨f, fs⟩⟩, host, journal⟩ := m
  · rfl
  · exact Nat.le_antisymm h hpos

/-- A script that is fed finds or makes the one frame of the session; nothing else changes the
depth. -/
theorem depth_take (input : Input) (h : s.machine.depth ≤ 1) :
    (s.take input).2.machine.depth = if input.feedsScript then 1 else s.machine.depth := by
  cases hparse : Script.parse input.source with
  | error e =>
    rw [take_of_error hparse, feedsScript_of_error hparse]
    rfl
  | ok script =>
    cases input with
    | run source => exact congrArg FrameStack.depth (frames_take_run source s)
    | feed source =>
      dsimp only [Input.source] at hparse
      have hread : (s.read source).2.machine.depth = s.machine.depth :=
        congrArg FrameStack.depth (read_frames source s)
      have hroot := depth_ensureRoot (hread.symm ▸ h)
      have hkept := Machine.executeAll_keepsOuter s.commands script (hroot.symm ▸ Nat.one_pos)
      rw [feedsScript_feed hparse, machine_take_feed hparse, if_pos rfl, ← hroot, ← hkept.depth]
      unfold Machine.executeAll
      rw [Machine.ensureRoot_of_depth_pos (Machine.depth_ensureRoot_pos _)]

/-- Behind an input a name means the last function that the input declares under it, and else what it
meant before. -/
theorem function?_take (input : Input) (s : Session σ) (name : String) :
    (s.take input).2.machine.frames.function? name =
      (latest (declaredBy input s) name).or (s.machine.frames.function? name) := by
  cases hparse : Script.parse input.source with
  | error e =>
    rw [take_of_error hparse, declaredBy_of_error hparse]
    rfl
  | ok script =>
    cases input with
    | run source =>
      rw [frames_take_run]
      rfl
    | feed source =>
      dsimp only [Input.source] at hparse
      have hread := read_frames source s
      have hroot : (s.read source).2.machine.ensureRoot.frames.function? name =
          s.machine.frames.function? name := by
        rw [Machine.frames_ensureRoot, hread]
        obtain ⟨_ | ⟨frame, frames⟩⟩ := s.machine.frames <;> simp [FrameStack.ensureRoot]
      rw [machine_take_feed hparse, declaredBy_feed hparse, ← hroot]
      exact Statement.function?_executeEach (entryWithin_moves s.commands _) script _ name

/-- What is declared is declared in a script. -/
theorem exists_of_mem_declaredBy {f : Function} (h : f ∈ declaredBy input s) :
    ∃ script, Script.parse input.source = .ok script ∧ ∃ d ∈ script, d.function? = some f := by
  cases input with
  | run source => exact nomatch h
  | feed source =>
    rw [declaredBy] at h
    cases hparse : Script.parse source with
    | error e =>
      rw [hparse] at h
      exact nomatch h
    | ok script =>
      rw [hparse] at h
      obtain ⟨d, hd, hf⟩ := List.mem_filterMap.mp h
      exact ⟨script, hparse, d, Statement.mem_of_mem_completed script _ d hd, hf⟩

end

/-! ## Inputs one after the other -/

theorem depth_takeEach (inputs : List Input) {s : Session σ} (h : s.machine.depth ≤ 1) :
    (s.takeEach inputs).2.machine.depth =
      if inputs.any Input.feedsScript then 1 else s.machine.depth := by
  induction inputs generalizing s with
  | nil => rfl
  | cons input inputs ih =>
    have hdepth := depth_take input h
    have hle : (s.take input).2.machine.depth ≤ 1 := by
      rw [hdepth]
      split
      · exact Nat.le_refl 1
      · exact h
    rw [takeEach, List.any_cons]
    dsimp only
    rw [ih hle, hdepth]
    cases input.feedsScript <;> cases inputs.any Input.feedsScript <;> rfl

theorem function?_takeEach (inputs : List Input) (s : Session σ) (name : String) :
    (s.takeEach inputs).2.machine.frames.function? name =
      (latest (s.declaredByEach inputs) name).or (s.machine.frames.function? name) := by
  induction inputs generalizing s with
  | nil => rfl
  | cons input inputs ih =>
    rw [takeEach, declaredByEach, latest_append]
    dsimp only
    rw [ih, function?_take, Option.or_assoc]

theorem exists_of_mem_declaredByEach {inputs : List Input} {s : Session σ} {f : Function}
    (h : f ∈ s.declaredByEach inputs) :
    ∃ source script, Script.parse source = .ok script ∧ ∃ d ∈ script, d.function? = some f := by
  induction inputs generalizing s with
  | nil => exact nomatch h
  | cons input inputs ih =>
    rw [declaredByEach, List.mem_append] at h
    rcases h with h | h
    · exact ⟨_, exists_of_mem_declaredBy h⟩
    · exact ih h

end Session

/-- Where there is one frame at most, what is stored has a name. -/
theorem FrameStack.exists_function?_of_stores {s : FrameStack} (hdepth : s.depth ≤ 1) {f : Function}
    (h : s.Stores f) : ∃ name, s.function? name = some f := by
  obtain ⟨frame, hframe, name, hf⟩ := h
  obtain ⟨frames⟩ := s
  refine ⟨name, ?_⟩
  match frames, hdepth with
  | [only], _ =>
    obtain rfl := List.mem_singleton.mp hframe
    unfold FrameStack.function?
    rw [List.findSome?_singleton]
    exact hf

/-- The body of a function that a parsed script declares declares nothing, and no expression in it is
deeper than the parser allows. -/
theorem Script.body_of_declared {source : String} {script : Script} {d : Statement} {f : Function}
    (hparse : Script.parse source = .ok script) (hd : d ∈ script) (hf : d.function? = some f) :
    ∀ t ∈ f.body, t.isDeclaration = false ∧ ∀ e ∈ t.expressions, e.depth ≤ 256 := by
  have hbody : f.body = d.body := by
    cases d with
    | declaration =>
      cases hf
      rfl
    | command | expression => exact nomatch hf
  have hdepth := Statement.exprDepthOfAll_le_iff.mp (Script.exprDepth_le_of_ofLexemes hparse)
  rw [hbody]
  intro t ht
  refine ⟨((Script.parse_wellFormed hparse d hd).body t ht).2, ?_⟩
  exact Statement.depth_le_of_mem_expressions (Statement.exprDepth_le_of_mem_body (hdepth d hd) t ht)

namespace Session

/-- After any inputs a session that began without frames has one frame if a script was fed to it, and
else none; a source that is no script changes nothing but the journal; the functions it stores declare
nothing and have no expression deeper than the limit; and a name means the last function that was
declared under it by a statement of a fed script, with no failure before. -/
theorem takeEach_reaches (commands : Registry σ) (host : σ) (journal : Option (List Event))
    (inputs : List Input) :
    let start : Session σ := ⟨commands, .start host journal⟩
    let s := (start.takeEach inputs).2
    s.machine.depth = (if inputs.any Input.feedsScript then 1 else 0) ∧
      (∀ (input : Input) (e : ParseError), Script.parse input.source = .error e →
        s.take input = (.error (.parse e),
          { s with machine := s.machine.note (.lexed (lexemes input.source).length) })) ∧
      (∀ f, s.machine.frames.Stores f → ∀ t ∈ f.body,
        t.isDeclaration = false ∧ ∀ e ∈ t.expressions, e.depth ≤ 256) ∧
      ∀ name, s.machine.frames.function? name = latest (start.declaredByEach inputs) name := by
  intro start s
  have hdepth : s.machine.depth = if inputs.any Input.feedsScript then 1 else 0 :=
    depth_takeEach inputs (Nat.zero_le 1)
  have hnames (name : String) :
      s.machine.frames.function? name = latest (start.declaredByEach inputs) name :=
    (function?_takeEach inputs start name).trans Option.or_none
  refine ⟨hdepth, fun input e h => take_of_error h, fun f hf => ?_, hnames⟩
  have hle : s.machine.frames.depth ≤ 1 := by
    change s.machine.depth ≤ 1
    rw [hdepth]
    split
    · exact Nat.le_refl 1
    · exact Nat.zero_le 1
  obtain ⟨name, hname⟩ := FrameStack.exists_function?_of_stores hle hf
  rw [hnames] at hname
  obtain ⟨source, script, hparse, d, hd, hdf⟩ := exists_of_mem_declaredByEach (mem_of_latest hname)
  exact Script.body_of_declared hparse hd hdf

/-- A session in which a function is declared four times: twice over, then behind a call that fails, and
then in a script that is run in a frame of its own. -/
def redeclaring : List Input :=
  [.feed ("function f() \x7b one \x7d\nfunction f(number a) \x7b two \x7d\n!missing\n" ++
      "function f() \x7b three \x7d"),
    .run "function f() \x7b four \x7d"]

/-- The second declaration is the one that counts, also behind a source that is no script. -/
theorem takeEach_reaches_redeclaring :
    let start : Session Unit := ⟨Registry.empty, .start () none⟩
    let s := (start.takeEach redeclaring).2
    s.machine.depth = 1 ∧
      (∃ e, Script.parse "f (" = .error e ∧ s.take (.feed "f (") =
        (.error (.parse e), { s with machine := s.machine.note (.lexed (lexemes "f (").length) })) ∧
      ∃ f, s.machine.frames.function? "f" = some f ∧ f.params = [⟨"number", "a"⟩] ∧
        ∀ t ∈ f.body, t.isDeclaration = false ∧ ∀ e ∈ t.expressions, e.depth ≤ 256 := by
  intro start s
  obtain ⟨hdepth, hunread, hstored, hnames⟩ := takeEach_reaches Registry.empty () none redeclaring
  refine ⟨hdepth.trans (by decide +kernel), ?_, ?_⟩
  · have hbad : (Script.parse "f (").toOption.isSome = false := by decide +kernel
    rcases hparse : Script.parse "f (" with e | script
    · exact ⟨e, rfl, hunread (.feed "f (") e hparse⟩
    · rw [hparse] at hbad
      exact nomatch hbad
  · have hdeclared : ((latest (start.declaredByEach redeclaring) "f").map Function.params) =
        some [⟨"number", "a"⟩] := by decide +kernel
    obtain ⟨f, hf, hparams⟩ := Option.map_eq_some_iff.mp hdeclared
    have hname : s.machine.frames.function? "f" = some f := (hnames "f").trans hf
    exact ⟨f, hname, hparams, hstored f (FrameStack.stores_of_function? hname)⟩

end Session

end CommandScript
