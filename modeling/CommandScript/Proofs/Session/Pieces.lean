import CommandScript.Proofs.Machine.StackDiscipline
import CommandScript.Proofs.Machine.Uniform
import CommandScript.Proofs.Parser.Seam
import CommandScript.Proofs.Session.Reading

/-!
A session typed in pieces. Fed one after the other, two sources do what they do as one source with a
line feed between them, but for the places in the second one, which stands further down there.
-/

namespace CommandScript
set_option autoImplicit false

variable {σ : Type}

open CommandScript.Action (unmoved)

/-! ## What stands still and what moves -/

theorem Traced.function_fixed (k : Nat) (f : Function) : function k ⟨.fixed, f⟩ = f := f.down_zero

/-- The names in a frame, of which no function moves. -/
def Frame.still (f : Frame) : TracedNames :=
  ⟨f.value?, fun x => (f.function? x).map (Traced.mk .fixed)⟩

theorem Frame.names_still (k : Nat) (f : Frame) : f.still.names k = f.names := by
  apply Names.ext
  · rfl
  · funext x
    change ((f.function? x).map (Traced.mk .fixed)).map (Traced.function k) = f.function? x
    cases f.function? x with
    | none => rfl
    | some fn => exact congrArg some (Traced.function_fixed k fn)

namespace Machine

/-- The state of a machine, in which no function moves. -/
def still (m : Machine σ) : TracedState σ :=
  ⟨m.frames.frames.map Frame.still, m.host, m.journal.map invocations⟩

theorem shown_still (k : Nat) (m : Machine σ) : m.still.Shown k m := by
  refine ⟨?_, rfl, rfl⟩
  change _ = (m.frames.frames.map Frame.still).map (TracedNames.names k)
  rw [List.map_map]
  exact List.map_congr_left fun f _ => (Frame.names_still k f).symm

theorem exists_ending (commands : Registry σ) (origin : Origin) (ss : List Statement)
    (w : TracedState σ) :
    ∃ o : Ending σ Unit, ∀ k m, w.Shown k m →
      o.Seen unmoved k (executeAll commands (ss.map (Statement.down (origin.lines k))) m) := by
  obtain ⟨o, ho⟩ := executeAll_uniform commands (ss.map (Traced.mk origin)) w
  simp only [List.map_map] at ho
  exact ⟨o, ho⟩

/-- An ending of the first statements, and one of both in a row: the same if the first ones fail, and
else one of the second ones from there. -/
theorem exists_endings (commands : Registry σ) (ss ts : List Statement) (w : TracedState σ) :
    ∃ o₁ o : Ending σ Unit,
      (∀ k m, w.Shown k m → o₁.Seen unmoved k (executeAll commands ss m)) ∧
        (∀ k m, w.Shown k m →
          o.Seen unmoved k (executeAll commands (ss ++ ts.map (Statement.down k)) m)) ∧
        ((∃ e, o₁.result = .error e ∧ o = o₁) ∨
          (o₁.result = .ok () ∧ ∀ k m, o₁.state.Shown k m →
            o.Seen unmoved k (executeAll commands (ts.map (Statement.down k)) m))) := by
  obtain ⟨⟨r, w'⟩, ho₁⟩ := exists_ending commands .fixed ss w
  simp only [Origin.lines, Statement.map_down_zero] at ho₁
  cases r with
  | error e =>
    refine ⟨⟨.error e, w'⟩, ⟨.error e, w'⟩, ho₁, fun k m hm => ?_, .inl ⟨e, rfl, rfl⟩⟩
    obtain ⟨m', hss, hm'⟩ := (ho₁ k m hm).error
    rw [executeAll_append, Action.bind_apply, hss]
    exact ⟨rfl, hm'⟩
  | ok _ =>
    obtain ⟨o, ho⟩ := exists_ending commands .moving ts w'
    refine ⟨⟨.ok (), w'⟩, o, ho₁, fun k m hm => ?_, .inr ⟨rfl, ho⟩⟩
    obtain ⟨m', hss, hm'⟩ := (ho₁ k m hm).ok
    rw [executeAll_append, Action.bind_apply, hss]
    exact ho k m' hm'

end Machine

/-! ## Sources in a row -/

namespace Session

/-- Feeds the second source if the first one has run to its end. -/
def feedInTurn (first second : String) (s : Session σ) : Except ScriptError Unit × Session σ :=
  match s.feed first with
  | (.ok _, s) => s.feed second
  | (.error e, s) => (.error e, s)

/-- What a session tells of an ending if the source that moves is moved down by `k` lines. -/
structure Told (commands : Registry σ) (k : Nat) (o : Ending σ Unit)
    (r : Except ScriptError Unit × Session σ) : Prop where
  result : r.1 = o.result.mapError fun e => .runtime (e.error k)
  commands : r.2.commands = commands
  state : o.state.Shown k r.2.machine

theorem shown_read {k : Nat} {w : TracedState σ} {s : Session σ} (h : w.Shown k s.machine)
    (source : String) : w.Shown k (s.read source).2.machine := by
  unfold read
  dsimp only
  cases Script.ofLexemes (lexemes source) with
  | error e => exact h.note rfl
  | ok script => exact (h.note rfl).note rfl

theorem told_feed {k : Nat} {source : String} {script : Script}
    (hparse : Script.parse source = .ok script) {s : Session σ} {w : TracedState σ}
    {o : Ending σ Unit} (hs : w.Shown k s.machine)
    (ho : ∀ m, w.Shown k m → o.Seen unmoved k (Machine.executeAll s.commands script m)) :
    Told s.commands k o (s.feed source) := by
  obtain ⟨hresult, hstate⟩ := ho _ (shown_read hs source)
  rw [feed, readAnd_of_ok _ hparse]
  refine ⟨?_, rfl, hstate⟩
  dsimp only
  rw [hresult]
  cases o.result <;> rfl

variable {first second : String} {script more : Script}

/-- Two sources fed in turn, and the same two as one source with a line feed between them, end alike:
with the same result, the same commands invoked, the same host and the same frames. Only the lines in
the trace and the functions that move are told further down, by the line feeds of the first source
and one more. Those of the second source move and no others, since the statements of both end like
this however far down the second ones stand. -/
theorem feed_seam (hfirst : Script.parse first = .ok script)
    (hsecond : Script.parse second = .ok more) (s : Session σ) :
    ∃ o : Ending σ Unit,
      (∀ k, o.Seen unmoved k
        (Machine.executeAll s.commands (script ++ more.map (Statement.down k)) s.machine)) ∧
      Told s.commands 0 o (s.feedInTurn first second) ∧
      Told s.commands (lineFeeds first + 1) o (s.feed (first ++ "\n" ++ second)) := by
  -- Reading the second source on its own tells the journal something in between, so the ending of both
  -- is taken from that of the first one, and not from a run of both statement lists.
  obtain ⟨o₁, o, ho₁, ho, hturn⟩ := Machine.exists_endings s.commands script more s.machine.still
  have hstill (k : Nat) := s.machine.shown_still k
  have hboth : Script.parse (first ++ "\n" ++ second) =
      .ok (script ++ more.map (Statement.down (lineFeeds first + 1))) := by
    rw [Script.parse_seam hfirst, hsecond]
  have htold : Told s.commands 0 o₁ (s.feed first) := told_feed hfirst (hstill 0) (ho₁ 0)
  refine ⟨o, fun k => ho k _ (hstill k), ?_, told_feed hboth (hstill _) (ho _)⟩
  unfold feedInTurn
  rcases hfeed : s.feed first with ⟨r, s'⟩
  rw [hfeed] at htold
  obtain ⟨hresult, hcommands, hstate⟩ := htold
  rcases hturn with ⟨e, herror, rfl⟩ | ⟨hok, ho₂⟩
  · rw [herror] at hresult
    obtain rfl : r = .error (.runtime (e.error 0)) := hresult
    refine ⟨?_, hcommands, hstate⟩
    rw [herror]
    rfl
  · rw [hok] at hresult
    obtain rfl : r = .ok () := hresult
    have hmore (m : Machine σ) (hm : o₁.state.Shown 0 m) :
        o.Seen unmoved 0 (Machine.executeAll s'.commands more m) := by
      have hseen := ho₂ 0 m hm
      rwa [Statement.map_down_zero, ← hcommands] at hseen
    have hfed := told_feed hsecond hstate hmore
    exact ⟨hfed.result, hfed.commands.trans hcommands, hfed.state⟩

/-- A source that declares a function of which the call fails, on lines of both sources. -/
def failingDeclaration : String := "function fail() \x7b\n  missing 1\n\x7d"

theorem feed_seam_failingCall :
    let s : Session Unit := ⟨Registry.empty, .start () none⟩
    let script : Script :=
      [.declaration ⟨1, 1⟩ "fail" [] [.command ⟨2, 3⟩ "missing" [.literal (.number 1)]]]
    let more : Script := [.expression ⟨1, 1⟩ (.call "fail" [])]
    (s.feedInTurn failingDeclaration "!fail").1 =
        .error (.runtime ⟨.commandNotFound "missing", [2, 1]⟩) ∧
      (s.feed (failingDeclaration ++ "\n" ++ "!fail")).1 =
        .error (.runtime ⟨.commandNotFound "missing", [2, 4]⟩) ∧
      Script.parse failingDeclaration = .ok script ∧ Script.parse "!fail" = .ok more ∧
      ∃ o : Ending Unit Unit,
        (∀ k, o.Seen unmoved k
          (Machine.executeAll s.commands (script ++ more.map (Statement.down k)) s.machine)) ∧
        Told s.commands 0 o (s.feedInTurn failingDeclaration "!fail") ∧
        Told s.commands (lineFeeds failingDeclaration + 1) o
          (s.feed (failingDeclaration ++ "\n" ++ "!fail")) := by
  intro s script more
  have hfirst : Script.parse failingDeclaration = .ok script := by decide +kernel
  have hsecond : Script.parse "!fail" = .ok more := by decide +kernel
  exact ⟨by decide +kernel, by decide +kernel, hfirst, hsecond, feed_seam hfirst hsecond s⟩

end Session

end CommandScript
