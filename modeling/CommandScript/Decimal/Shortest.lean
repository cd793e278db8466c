import CommandScript.Decimal.Basic

/-!
The shortest decimal of a double: on the coarsest decimal grid on which one of the two neighbours
of the double reads back as the double, the nearer neighbour that does; if both are equally near,
the larger one. The main statement is that the answer of a search reads back if the number itself,
written with all its digits, does.
-/

namespace CommandScript.Decimal
set_option autoImplicit false

/-- The number `m · 2 ^ e` itself, with as many digits as it takes. -/
def exact (m : Nat) (e : Int) : Decimal :=
  if 0 ≤ e then ⟨m * Nat.pow 2 e.toNat, 0⟩ else ⟨m * Nat.pow 5 (-e).toNat, e⟩

/-- The multiples of `10 ^ s` next to `m · 2 ^ e` on either side, the nearer one first. Those that
are farther away than `2 ^ e` are left out, because they cannot read back. -/
def neighbours (m : Nat) (e s : Int) : List Decimal :=
  let above := m * Nat.pow 2 e.toNat * Nat.pow 10 (-s).toNat
  let below := Nat.pow 2 (-e).toNat * Nat.pow 10 s.toNat
  let low := above / below
  let excess := above % below
  let lack := below - excess
  let lower := if excess * m ≤ above then [⟨low, s⟩] else []
  let upper := if lack * m ≤ above then [⟨low + 1, s⟩] else []
  if excess < lack then lower ++ upper else upper ++ lower

/-- The first grid that is looked at: a power of ten beyond `m · 2 ^ e`. -/
def coarsest (m : Nat) (e : Int) : Int := (m.log2 + 1 + e) * 30103 / 100000 + 2

/-- Looks for a decimal of `x` on `n` grids, `10 ^ s` being the coarsest of them. -/
def search (x : Float) (m : Nat) (e : Int) : Nat → Int → Decimal
  | 0, _ => exact m e
  | n + 1, s =>
    match (neighbours m e s).find? (fun d => d.toFloat = x) with
    | some d => d
    | none => search x m e n (s - 1)

/-- The shortest decimal of the magnitude of a finite double. Seventeen digits always suffice, and
the search begins three grids too high at most. -/
def shortest (x : Float) : Decimal :=
  match x.toModel.unpack with
  | .finite _ m e _ => search x.abs m e 24 (coarsest m e)
  | _ => ⟨0, 0⟩

/-! ## Reading back -/

theorem search_toFloat {x : Float} {m : Nat} {e : Int} (n : Nat) (s : Int)
    (h : (exact m e).toFloat = x) : (search x m e n s).toFloat = x := by
  induction n generalizing s with
  | zero => exact h
  | succ n ih =>
    rw [search]
    split
    · rename_i d found
      simpa using List.find?_some found
    · exact ih (s - 1)

end CommandScript.Decimal
