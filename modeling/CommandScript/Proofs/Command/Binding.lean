import CommandScript.Machine.Basic
import CommandScript.Proofs.Value.Conversions

/-!
Binding. A command takes as many values as it has parameters, or fewer if the required ones have theirs;
each value is converted to the type of its parameter, and the parameters behind the last value get none.
What keeps values from being bound is said by one rule for each failure, in the order in which they
count. The main statement is that values are bound just so, or refused for just these reasons, and that
the body of the command runs once on what is bound and not at all on what is refused.
-/

namespace CommandScript
set_option autoImplicit false

variable {σ : Type}

/-! ## Values beside parameters -/

/-- The parameter is the first one that has a value which cannot be converted to its type. -/
def FirstUnfit (ps : List CommandParameter) (vs : List Value) (p : CommandParameter) : Prop :=
  ∃ (i : Nat) (v : Value), ps[i]? = some p ∧ vs[i]? = some v ∧ (∀ w, ¬p.type.Converts v w) ∧
    ∀ j < i, ∀ (q : CommandParameter) (u : Value), ps[j]? = some q → vs[j]? = some u →
      ∃ w, q.type.Converts u w

/-- There is one argument for each parameter: the value in its place, made one of its type, or nothing
where the values have ended. -/
structure Bound (ps : List CommandParameter) (vs : List Value) (args : List Argument) : Prop where
  length : args.length = ps.length
  supplied : ∀ (i : Nat) (p : CommandParameter) (v : Value), ps[i]? = some p → vs[i]? = some v →
    ∃ w : Value, p.type.Converts v w ∧ p.type.Admits w ∧ (p.type = .any → w = v) ∧
      args[i]? = some (.value w)
  missing : ∀ i : Nat, i < ps.length → vs.length ≤ i → args[i]? = some .missing

section

variable {p q : CommandParameter} {ps : List CommandParameter} {v w : Value} {vs : List Value}
  {args : List Argument}

@[simp] theorem not_firstUnfit_nil : ¬FirstUnfit ps [] q := by
  rintro ⟨i, v, -, hv, -⟩
  exact nomatch hv

@[simp] theorem not_firstUnfit_nil_params : ¬FirstUnfit [] vs q := by
  rintro ⟨i, v, hq, -⟩
  exact nomatch hq

theorem firstUnfit_cons_of_not (h : ∀ w, ¬p.type.Converts v w) :
    FirstUnfit (p :: ps) (v :: vs) q ↔ q = p := by
  constructor
  · rintro ⟨i, w, hq, -, -, hbefore⟩
    cases i with
    | zero => exact (Option.some.inj hq).symm
    | succ i =>
      obtain ⟨u, hu⟩ := hbefore 0 (Nat.succ_pos i) p v rfl rfl
      exact absurd hu (h u)
  · rintro rfl
    exact ⟨0, v, rfl, rfl, h, nofun⟩

theorem firstUnfit_cons_of_converts (h : p.type.Converts v w) :
    FirstUnfit (p :: ps) (v :: vs) q ↔ FirstUnfit ps vs q := by
  constructor
  · rintro ⟨i, u, hq, hu, hnone, hbefore⟩
    cases i with
    | zero =>
      obtain rfl := Option.some.inj hq
      obtain rfl := Option.some.inj hu
      exact absurd h (hnone w)
    | succ i => exact ⟨i, u, hq, hu, hnone, fun j hj => hbefore (j + 1) (Nat.succ_lt_succ hj)⟩
  · rintro ⟨i, u, hq, hu, hnone, hbefore⟩
    refine ⟨i + 1, u, hq, hu, hnone, fun j hj r x hr hx => ?_⟩
    cases j with
    | zero =>
      obtain rfl := Option.some.inj hr
      obtain rfl := Option.some.inj hx
      exact ⟨w, h⟩
    | succ j => exact hbefore j (Nat.lt_of_succ_lt_succ hj) r x hr hx

@[simp] theorem bound_nil_iff : Bound [] vs args ↔ args = [] :=
  ⟨fun h => List.length_eq_zero_iff.mp h.length, by
    rintro rfl
    exact ⟨rfl, nofun, nofun⟩⟩

theorem bound_missing_iff :
    Bound (p :: ps) [] args ↔ ∃ rest, args = .missing :: rest ∧ Bound ps [] rest := by
  constructor
  · intro h
    obtain _ | ⟨a, rest⟩ := args
    · exact nomatch h.length
    obtain rfl : a = .missing := Option.some.inj (h.missing 0 (Nat.succ_pos _) (Nat.le_refl 0))
    refine ⟨rest, rfl, Nat.succ.inj h.length, nofun, fun i hi _ => ?_⟩
    exact h.missing (i + 1) (Nat.succ_lt_succ hi) (Nat.zero_le _)
  · rintro ⟨rest, rfl, h⟩
    refine ⟨congrArg (· + 1) h.length, nofun, fun i hi _ => ?_⟩
    cases i with
    | zero => rfl
    | succ i => exact h.missing i (Nat.lt_of_succ_lt_succ hi) (Nat.zero_le _)

theorem bound_cons_iff : Bound (p :: ps) (v :: vs) args ↔
    ∃ w, p.type.Converts v w ∧ ∃ rest, args = .value w :: rest ∧ Bound ps vs rest := by
  constructor
  · intro h
    obtain _ | ⟨a, rest⟩ := args
    · exact nomatch h.length
    obtain ⟨w, hw, -, -, ha⟩ := h.supplied 0 p v rfl rfl
    obtain rfl : a = .value w := Option.some.inj ha
    refine ⟨w, hw, rest, rfl, Nat.succ.inj h.length, ?_, ?_⟩
    · exact fun i q u hq hu => h.supplied (i + 1) q u hq hu
    · exact fun i hi hle => h.missing (i + 1) (Nat.succ_lt_succ hi) (Nat.succ_le_succ hle)
  · rintro ⟨w, hw, rest, rfl, h⟩
    refine ⟨congrArg (· + 1) h.length, fun i q u hq hu => ?_, fun i hi hle => ?_⟩
    · cases i with
      | zero =>
        obtain rfl := Option.some.inj hq
        obtain rfl := Option.some.inj hu
        refine ⟨w, hw, hw.admits, fun hany => ?_, rfl⟩
        rw [hany] at hw
        cases hw
        rfl
      | succ i => exact h.supplied i q u hq hu
    · cases i with
      | zero => exact absurd hle (Nat.not_succ_le_zero _)
      | succ i => exact h.missing i (Nat.lt_of_succ_lt_succ hi) (Nat.le_of_succ_le_succ hle)

end

/-! ## Binding one after the other -/

namespace Command

theorem bindEach_eq_error_iff (ps : List CommandParameter) (vs : List Value) (f : Failure) :
    bindEach ps vs = .error f ↔
      ∃ p, FirstUnfit ps vs p ∧ f = .conversionFailed p.name p.type := by
  have hmap (a : Argument) (r : Except Failure (List Argument)) :
      r.map (a :: ·) = .error f ↔ r = .error f := by
    cases r <;> simp [Except.map]
  fun_induction bindEach ps vs with
  | case1 vs => simp
  | case2 p ps ih => simp [hmap, ih]
  | case3 p ps v vs hunfit =>
    have hnot := ParameterType.convert?_eq_none_iff.mp hunfit
    simp only [firstUnfit_cons_of_not hnot, exists_eq_left, Except.error.injEq]
    exact eq_comm
  | case4 p ps v vs w hw ih =>
    have hconverts := ParameterType.convert?_eq_some_iff.mp hw
    simp only [hmap, ih, firstUnfit_cons_of_converts hconverts]

theorem bindEach_eq_ok_iff (ps : List CommandParameter) (vs : List Value) (args : List Argument) :
    bindEach ps vs = .ok args ↔ Bound ps vs args := by
  have hmap (a : Argument) (r : Except Failure (List Argument)) (args : List Argument) :
      r.map (a :: ·) = .ok args ↔ ∃ rest, args = a :: rest ∧ r = .ok rest := by
    cases r with
    | error g => exact iff_of_false nofun fun ⟨_, _, h⟩ => nomatch h
    | ok rest => simp [Except.map, eq_comm]
  fun_induction bindEach ps vs generalizing args with
  | case1 vs => simp [eq_comm]
  | case2 p ps ih => simp only [hmap, bound_missing_iff, ih]
  | case3 p ps v vs hunfit =>
    have hnot := ParameterType.convert?_eq_none_iff.mp hunfit
    refine iff_of_false nofun fun h => ?_
    obtain ⟨w, hw, -⟩ := bound_cons_iff.mp h
    exact hnot w hw
  | case4 p ps v vs w hw ih =>
    simp only [hmap, bound_cons_iff, ← ParameterType.convert?_eq_some_iff, hw, ih,
      Option.some.injEq, exists_eq_left']

theorem bindEach_values {ps : List CommandParameter} {vs : List Value} {args : List Argument}
    (h : bindEach ps vs = .ok args) (hle : vs.length ≤ ps.length) :
    (args.filterMap Argument.value?).length = vs.length ∧
      bindEach ps (args.filterMap Argument.value?) = .ok args := by
  simp only [bindEach_eq_ok_iff] at h ⊢
  induction ps generalizing vs args with
  | nil =>
    obtain rfl := bound_nil_iff.mp h
    obtain rfl := List.length_eq_zero_iff.mp (Nat.le_zero.mp hle)
    exact ⟨rfl, h⟩
  | cons p ps ih =>
    obtain _ | ⟨v, vs⟩ := vs
    · obtain ⟨rest, rfl, hrest⟩ := bound_missing_iff.mp h
      obtain ⟨hlength, -⟩ := ih (Nat.zero_le _) hrest
      have hnone : rest.filterMap Argument.value? = [] := List.length_eq_zero_iff.mp hlength
      rw [List.filterMap_cons_none rfl, hnone]
      exact ⟨rfl, h⟩
    · obtain ⟨w, hw, rest, rfl, hrest⟩ := bound_cons_iff.mp h
      obtain ⟨hlength, hagain⟩ := ih (Nat.le_of_succ_le_succ hle) hrest
      have hstays := ParameterType.converts_of_admits hw.admits
      exact ⟨congrArg (· + 1) hlength, bound_cons_iff.mpr ⟨w, hstays, rest, rfl, hagain⟩⟩

/-! ## The whole of binding -/

/-- Whether so many values are enough for the required parameters and have one parameter each. -/
def Takes (c : Command σ) (count : Nat) : Prop :=
  c.params.countP (·.required) ≤ count ∧ count ≤ c.params.length

/-- Why a command does not take the values. Too few come before too many, and their number comes before
what they are. -/
inductive Refuses (c : Command σ) (vs : List Value) : Failure → Prop
  | tooFew (h : vs.length < c.params.countP (·.required)) :
      Refuses c vs (.tooFewForCommand c.name vs.length (c.params.countP (·.required)))
  | tooMany (henough : c.params.countP (·.required) ≤ vs.length) (h : c.params.length < vs.length) :
      Refuses c vs (.tooManyForCommand c.name vs.length c.params.length)
  | unfit (htakes : c.Takes vs.length) (p : CommandParameter) (h : FirstUnfit c.params vs p) :
      Refuses c vs (.conversionFailed p.name p.type)

theorem bind_of_takes {c : Command σ} {vs : List Value} (h : c.Takes vs.length) :
    c.bind vs = bindEach c.params vs := by
  rw [bind, requiredCount, if_neg (Nat.not_lt.mpr h.1), if_neg (Nat.not_lt.mpr h.2)]

theorem bind_of_few {c : Command σ} {vs : List Value}
    (h : vs.length < c.params.countP (·.required)) :
    c.bind vs = .error (.tooFewForCommand c.name vs.length (c.params.countP (·.required))) := by
  rw [bind, requiredCount, if_pos h]

theorem bind_of_many {c : Command σ} {vs : List Value}
    (henough : c.params.countP (·.required) ≤ vs.length) (h : c.params.length < vs.length) :
    c.bind vs = .error (.tooManyForCommand c.name vs.length c.params.length) := by
  rw [bind, requiredCount, if_neg (Nat.not_lt.mpr henough), if_pos h]

/-- Values that do not have the right number are refused for it, whatever they are. -/
theorem exists_refused_of_not_takes {c : Command σ} {vs : List Value} (h : ¬c.Takes vs.length) :
    ∃ f, c.bind vs = .error f ∧ c.Refuses vs f := by
  by_cases hfew : vs.length < c.params.countP (·.required)
  · exact ⟨_, bind_of_few hfew, .tooFew hfew⟩
  · have henough := Nat.not_lt.mp hfew
    have hmany : c.params.length < vs.length := Nat.not_le.mp fun hle => h ⟨henough, hle⟩
    exact ⟨_, bind_of_many henough hmany, .tooMany henough hmany⟩

theorem bind_eq_error_iff (c : Command σ) (vs : List Value) (f : Failure) :
    c.bind vs = .error f ↔ c.Refuses vs f := by
  constructor
  · intro h
    by_cases htakes : c.Takes vs.length
    · rw [bind_of_takes htakes] at h
      obtain ⟨p, hp, rfl⟩ := (bindEach_eq_error_iff _ _ _).mp h
      exact .unfit htakes p hp
    · obtain ⟨g, hg, hrefuses⟩ := exists_refused_of_not_takes htakes
      obtain rfl : g = f := Except.error.inj (hg.symm.trans h)
      exact hrefuses
  · rintro (hfew | ⟨henough, hmany⟩ | ⟨htakes, p, hp⟩)
    · exact bind_of_few hfew
    · exact bind_of_many henough hmany
    · rw [bind_of_takes htakes]
      exact (bindEach_eq_error_iff _ _ _).mpr ⟨p, hp, rfl⟩

theorem bind_eq_ok_iff (c : Command σ) (vs : List Value) (args : List Argument) :
    c.bind vs = .ok args ↔ c.Takes vs.length ∧ Bound c.params vs args := by
  by_cases htakes : c.Takes vs.length
  · rw [bind_of_takes htakes, bindEach_eq_ok_iff, and_iff_right htakes]
  · obtain ⟨f, hf, -⟩ := exists_refused_of_not_takes htakes
    rw [hf]
    exact iff_of_false nofun fun h => htakes h.1

/-- What was made of the values is bound as it is. -/
theorem bind_values {c : Command σ} {vs : List Value} {args : List Argument}
    (h : c.bind vs = .ok args) : c.bind (args.filterMap Argument.value?) = .ok args := by
  have htakes := ((bind_eq_ok_iff c vs args).mp h).1
  rw [bind_of_takes htakes] at h
  obtain ⟨hlength, hagain⟩ := bindEach_values h htakes.2
  have htakes' : c.Takes (args.filterMap Argument.value?).length := hlength ▸ htakes
  rw [bind_of_takes htakes', hagain]

/-! ## Runs of the body -/

/-- The command on a host that also keeps what its body is run on, the latest first. -/
def recording (c : Command σ) : Command (σ × List (List Argument)) where
  name := c.name
  description := c.description
  params := c.params
  body args host := ((c.body args host.1).1, (c.body args host.1).2, args :: host.2)

theorem perform_recording (c : Command σ) (args : List Argument) (host : σ)
    (calls : List (List Argument)) :
    c.recording.perform args (host, calls) =
      ((c.perform args host).1, (c.perform args host).2, args :: calls) := by
  unfold perform
  simp only [recording]
  cases c.body args host with
  | mk result after => cases result <;> rfl

theorem invoke_recording (c : Command σ) (vs : List Value) (host : σ) (calls : List (List Argument)) :
    c.recording.invoke vs (host, calls) =
      match c.bind vs with
      | .error f => (.error f, host, calls)
      | .ok args => ((c.perform args host).1, (c.perform args host).2, args :: calls) := by
  have hbind : c.recording.bind vs = c.bind vs := rfl
  rw [invoke, hbind]
  cases c.bind vs with
  | error f => rfl
  | ok args => exact perform_recording c args host calls

/-- A script invokes a command as its host would. -/
theorem action_invoke (c : Command σ) (vs : List Value) (m : Machine σ) :
    ((Action.invoke c vs m).1, (Action.invoke c vs m).2.host) =
      ((c.invoke vs m.host).1.mapError RuntimeError.ofFailure, (c.invoke vs m.host).2) := by
  unfold Action.invoke invoke
  cases c.bind vs <;> rfl

/-- Values are bound to the parameters in order, each made one of its type, or refused for the first
reason there is; what they are made is bound as it is; and the body runs once, on what is bound, or
not at all. -/
theorem bind_exact (c : Command σ) (vs : List Value) :
    (∀ f : Failure, c.bind vs = .error f ↔ c.Refuses vs f) ∧
    (∀ args : List Argument, c.bind vs = .ok args ↔ c.Takes vs.length ∧ Bound c.params vs args) ∧
    ((c.bind vs).bind fun args => c.bind (args.filterMap Argument.value?)) = c.bind vs ∧
    (∀ (host : σ) (calls : List (List Argument)), c.recording.invoke vs (host, calls) =
      match c.bind vs with
      | .error f => (.error f, host, calls)
      | .ok args => ((c.perform args host).1, (c.perform args host).2, args :: calls)) ∧
    ∀ m : Machine σ, ((Action.invoke c vs m).1, (Action.invoke c vs m).2.host) =
      ((c.invoke vs m.host).1.mapError RuntimeError.ofFailure, (c.invoke vs m.host).2) := by
  refine ⟨bind_eq_error_iff c vs, bind_eq_ok_iff c vs, ?_, invoke_recording c vs,
    action_invoke c vs⟩
  cases h : c.bind vs with
  | error f => rfl
  | ok args => exact bind_values h

/-- A command that takes a number, a truth value and perhaps a text. -/
def labelled : Command Unit where
  name := "mark"
  description := ""
  params := [⟨"size", .number, true⟩, ⟨"loud", .boolean, true⟩, ⟨"label", .text, false⟩]
  body _ host := (.ok (), host)

/-- What `labelled` makes of two texts. -/
def labelledArguments : List Argument :=
  [.value (.number 2.5), .value (.boolean true), .missing]

/-- Two texts are converted, and the third parameter goes without a value; a text that is no truth value
is refused with the name of its parameter, and then nothing runs. -/
theorem bind_exact_labelled :
    labelled.bind [.text " 2.5\t", .text "TRUE"] = .ok labelledArguments ∧
      Bound labelled.params [.text " 2.5\t", .text "TRUE"] labelledArguments ∧
      labelled.Refuses [.text "2.5", .text "maybe"] (.conversionFailed "loud" .boolean) ∧
      labelled.recording.invoke [.text " 2.5\t", .text "TRUE"] ((), []) =
        (.ok (), (), [labelledArguments]) ∧
      labelled.recording.invoke [.text "2.5", .text "maybe"] ((), []) =
        (.error (.conversionFailed "loud" .boolean), (), []) := by
  have hbind : labelled.bind [.text " 2.5\t", .text "TRUE"] = .ok labelledArguments := by
    decide +kernel
  have hrefused : labelled.bind [.text "2.5", .text "maybe"] =
      .error (.conversionFailed "loud" .boolean) := by
    decide +kernel
  obtain ⟨-, hbound, -, hruns, -⟩ := bind_exact labelled [.text " 2.5\t", .text "TRUE"]
  obtain ⟨hrefuses, -, -, hruns', -⟩ := bind_exact labelled [.text "2.5", .text "maybe"]
  refine ⟨hbind, ((hbound _).mp hbind).2, (hrefuses _).mp hrefused, ?_, ?_⟩
  · rw [hruns, hbind]
    rfl
  · rw [hruns', hrefused]

end Command

end CommandScript
