import CommandScript.Proofs.Command.Binding

/-!
Required parameters. The check before a binding counts values, and values go to parameters by place. So
what is sure of a value is not a required parameter, it is a place before the number of the required
parameters. The main statement is that a command never leaves a required parameter without a value just
if none of its optional parameters stands before a required one.
-/

namespace CommandScript
set_option autoImplicit false

variable {σ : Type}

/-! ## Orders of parameters -/

/-- No optional parameter stands before a required one. -/
def RequiredFirst (ps : List CommandParameter) : Prop :=
  ps.Pairwise fun p q => q.required → p.required

instance (ps : List CommandParameter) : Decidable (RequiredFirst ps) :=
  inferInstanceAs (Decidable (ps.Pairwise _))

theorem RequiredFirst.lt_countP {ps : List CommandParameter} (h : RequiredFirst ps) {i : Nat}
    {p : CommandParameter} (hp : ps[i]? = some p) (hrequired : p.required) :
    i < ps.countP (·.required) := by
  induction ps generalizing i with
  | nil => exact nomatch hp
  | cons q ps ih =>
    obtain ⟨hq, hps⟩ := List.pairwise_cons.mp h
    cases i with
    | zero =>
      obtain rfl := Option.some.inj hp
      rw [List.countP_cons_of_pos hrequired]
      exact Nat.succ_pos _
    | succ i =>
      rw [List.countP_cons_of_pos (hq p (List.mem_of_getElem? hp) hrequired)]
      exact Nat.succ_lt_succ (ih hps hp)

/-- The required parameters fill the places before their number if none stands behind these. -/
theorem requiredFirst_of_lt_countP {ps : List CommandParameter}
    (h : ∀ (i : Nat) (p : CommandParameter), ps[i]? = some p → p.required →
      i < ps.countP (·.required)) : RequiredFirst ps := by
  generalize hn : ps.countP (·.required) = n at h
  have hdrop : ∀ q ∈ ps.drop n, ¬q.required := by
    intro q hq hrequired
    obtain ⟨i, hi⟩ := List.getElem?_of_mem hq
    rw [List.getElem?_drop] at hi
    exact absurd (h (n + i) q hi hrequired) (Nat.not_lt.mpr (Nat.le_add_right n i))
  have hcount : (ps.take n).countP (·.required) = n := by
    rw [← List.take_append_drop n ps, List.countP_append, List.countP_eq_zero.mpr hdrop] at hn
    exact hn
  have htake : ∀ p ∈ ps.take n, p.required := by
    have hlength : (ps.take n).length ≤ (ps.take n).countP (·.required) :=
      hcount.symm ▸ List.length_take_le n ps
    exact List.countP_eq_length.mp (Nat.le_antisymm List.countP_le_length hlength)
  rw [RequiredFirst, ← List.take_append_drop n ps, List.pairwise_append]
  refine ⟨List.pairwise_of_forall_mem_list fun p hp _ _ _ => htake p hp,
    List.pairwise_of_forall_mem_list fun _ _ q hq hrequired => absurd hrequired (hdrop q hq),
    fun p hp _ _ _ => htake p hp⟩

theorem requiredFirst_iff (ps : List CommandParameter) : RequiredFirst ps ↔
    ∀ (i : Nat) (p : CommandParameter), ps[i]? = some p → p.required →
      i < ps.countP (·.required) :=
  ⟨fun h _ _ hp hrequired => h.lt_countP hp hrequired, requiredFirst_of_lt_countP⟩

/-! ## Places that are sure of a value -/

/-- A truth value is one of every type, or can be made one. -/
theorem ParameterType.exists_converts_boolean (type : ParameterType) (b : Bool) :
    ∃ w, type.Converts (.boolean b) w := by
  cases type with
  | any => exact ⟨_, .any _⟩
  | text => exact ⟨_, .text (Value.shows_toText _)⟩
  | boolean => exact ⟨_, .boolean b⟩
  | number =>
    cases b with
    | true => exact ⟨_, .one⟩
    | false => exact ⟨_, .zero⟩

namespace Command

theorem exists_bind (c : Command σ) {n : Nat} (h : c.Takes n) :
    ∃ vs args, vs.length = n ∧ c.bind vs = .ok args := by
  let vs : List Value := List.replicate n (.boolean true)
  have hlength : vs.length = n := List.length_replicate
  cases hbind : c.bind vs with
  | ok args => exact ⟨vs, args, hlength, hbind⟩
  | error f =>
    exfalso
    rcases (bind_eq_error_iff c vs f).mp hbind with hfew | ⟨-, hmany⟩ | ⟨-, p, i, v, -, hv, hnone, -⟩
    · exact absurd hfew (Nat.not_lt.mpr (hlength ▸ h.1))
    · exact absurd hmany (Nat.not_lt.mpr (hlength ▸ h.2))
    · obtain rfl := List.eq_of_mem_replicate (List.mem_of_getElem? hv)
      obtain ⟨w, hw⟩ := p.type.exists_converts_boolean true
      exact hnone w hw

/-- Every binding has a value for the parameter in the place. -/
def Supplies (c : Command σ) (i : Nat) : Prop :=
  ∀ vs args, c.bind vs = .ok args → ∃ v, args[i]? = some (.value v)

theorem value_of_bind {c : Command σ} {vs : List Value} {args : List Argument}
    (h : c.bind vs = .ok args) {i : Nat} (hi : i < vs.length) : ∃ v, args[i]? = some (.value v) := by
  obtain ⟨htakes, hbound⟩ := (bind_eq_ok_iff c vs args).mp h
  have hp := List.getElem?_eq_getElem (Nat.lt_of_lt_of_le hi htakes.2)
  obtain ⟨w, -, -, -, hw⟩ := hbound.supplied i _ _ hp (List.getElem?_eq_getElem hi)
  exact ⟨w, hw⟩

/-- A parameter goes without a value just if the values end before its place. -/
theorem missing_iff_of_bind {c : Command σ} {vs : List Value} {args : List Argument}
    (h : c.bind vs = .ok args) {i : Nat} (hi : i < c.params.length) :
    args[i]? = some .missing ↔ vs.length ≤ i := by
  constructor
  · refine fun hmissing => Nat.not_lt.mp fun hlt => ?_
    obtain ⟨v, hv⟩ := value_of_bind h hlt
    exact nomatch hmissing.symm.trans hv
  · exact fun hle => ((bind_eq_ok_iff c vs args).mp h).2.missing i hi hle

theorem takes_requiredCount (c : Command σ) : c.Takes c.requiredCount :=
  ⟨Nat.le_refl _, List.countP_le_length⟩

theorem supplies_iff (c : Command σ) (i : Nat) : c.Supplies i ↔ i < c.requiredCount := by
  constructor
  · intro h
    obtain ⟨vs, args, hlength, hbind⟩ := c.exists_bind c.takes_requiredCount
    obtain ⟨v, hv⟩ := h vs args hbind
    have hbound := ((bind_eq_ok_iff c vs args).mp hbind).2
    have hi : i < c.params.length := hbound.length ▸ (List.getElem?_eq_some_iff.mp hv).1
    refine Nat.not_le.mp fun hle => ?_
    have hmissing := hbound.missing i hi (hlength ▸ hle)
    exact nomatch hmissing.symm.trans hv
  · intro hi vs args hbind
    exact value_of_bind hbind (Nat.lt_of_lt_of_le hi ((bind_eq_ok_iff c vs args).mp hbind).1.1)

/-- A parameter goes without a value just if the values end before its place. The places that no binding
leaves without one are those before the number of the required parameters; all required parameters
stand in such places just if no optional one stands before any of them. -/
theorem required_supplied_iff (c : Command σ) :
    (∀ vs args, c.bind vs = .ok args → ∀ i < c.params.length,
      (args[i]? = some .missing ↔ vs.length ≤ i)) ∧
    (∀ i, c.Supplies i ↔ i < c.requiredCount) ∧
    ((∀ i p, c.params[i]? = some p → p.required → c.Supplies i) ↔ RequiredFirst c.params) := by
  refine ⟨fun vs args h i hi => missing_iff_of_bind h hi, c.supplies_iff, ?_⟩
  simp only [supplies_iff, requiredFirst_iff, requiredCount]

/-- A command with a required parameter behind an optional one. -/
def optionalBefore : Command Unit where
  name := "pair"
  description := ""
  params := [⟨"a", .any, false⟩, ⟨"b", .any, true⟩]
  body _ host := (.ok (), host)

/-- One value is enough for the one required parameter, and goes to the other. -/
theorem bind_optionalBefore :
    optionalBefore.params[1]? = some ⟨"b", .any, true⟩ ∧
      optionalBefore.bind [.text "x"] = .ok [.value (.text "x"), .missing] :=
  ⟨rfl, rfl⟩

end Command

end CommandScript
