import CommandScript.Command.Parameter
import CommandScript.Proofs.Double.Meaning

/-!
Values as values of another type. The text of a value is told by one rule for each kind of value, and a
table has one rule for each kind of value that can be made one of a type. The main statement is that a value
becomes what its rule in the table says, and none where the table has no rule.
-/

namespace CommandScript
set_option autoImplicit false

open Double (meaning)

namespace Value

/-! ## Texts -/

/-- The text that a value shows. -/
inductive Shows : Value → String → Prop
  | number (x : Float) : Shows (number x) (Number.text x)
  | text (s : String) : Shows (text s) s
  | yes : Shows (boolean true) "true"
  | no : Shows (boolean false) "false"
  | null : Shows null ""

theorem shows_toText (v : Value) : v.Shows v.toText := by
  rcases v with x | s | (_ | _) | _
  · exact .number x
  · exact .text s
  · exact .no
  · exact .yes
  · exact .null

theorem toText_eq_iff {v : Value} {s : String} : v.toText = s ↔ v.Shows s := by
  constructor
  · rintro rfl
    exact v.shows_toText
  · rintro (_ | _ | _ | _ | _) <;> rfl

end Value

namespace ParameterType

/-! ## Words for truth values -/

/-- The text has the word in it, in any case, and nothing else but white space around it. -/
def Spells (s word : String) : Prop :=
  ∃ cs : List Char, Text.Surrounds s.toList cs ∧ cs.map Char.toLower = word.toList

theorem spells_iff (s word : String) :
    Spells s word ↔ String.ofList ((Text.trim s.toList).map Char.toLower) = word := by
  constructor
  · rintro ⟨cs, hcs, hword⟩
    rw [(Text.trim_eq_iff _ _).mpr hcs, hword, String.ofList_toList]
  · rintro rfl
    exact ⟨_, (Text.trim_eq_iff _ _).mp rfl, String.toList_ofList.symm⟩

theorem boolean?_eq_some_iff {s : String} {b : Bool} :
    boolean? s = some b ↔ Spells s (if b then "true" else "false") := by
  rw [spells_iff, boolean?]
  split
  · rename_i htrue
    rw [htrue]
    cases b <;> decide
  split
  · rename_i hfalse
    rw [hfalse]
    cases b <;> decide
  · rename_i htrue hfalse
    cases b with
    | true => exact iff_of_false nofun htrue
    | false => exact iff_of_false nofun hfalse

/-! ## The table -/

/-- What a value becomes for a parameter of the type. Null can be made nothing but a text, and a text becomes
what it writes, if it writes such a value. -/
inductive Converts : ParameterType → Value → Value → Prop
  | any (v : Value) : Converts any v v
  | text {v : Value} {s : String} (h : v.Shows s) : Converts text v (.text s)
  | number (x : Float) : Converts number (.number x) (.number x)
  | numeral {s : String} {word : List Char} {x : Float} (hword : Text.Surrounds s.toList word)
      (h : Number.signed? word = some x) : Converts number (.text s) (.number x)
  | one : Converts number (.boolean true) (.number 1)
  | zero : Converts number (.boolean false) (.number 0)
  | boolean (b : Bool) : Converts boolean (.boolean b) (.boolean b)
  | yes {s : String} (h : Spells s "true") : Converts boolean (.text s) (.boolean true)
  | no {s : String} (h : Spells s "false") : Converts boolean (.text s) (.boolean false)
  | something {x : Float} (h : meaning x ≠ .rational 0) : Converts boolean (.number x) (.boolean true)
  | nothing {x : Float} (h : meaning x = .rational 0) : Converts boolean (.number x) (.boolean false)

theorem ofText?_eq_some_iff {s : String} {x : Float} : Number.ofText? s = some x ↔
    ∃ word, Text.Surrounds s.toList word ∧ Number.signed? word = some x := by
  unfold Number.ofText?
  simp only [← Text.trim_eq_iff, exists_eq_left']

theorem converts_of_convert? {type : ParameterType} {v w : Value} (h : type.convert? v = some w) :
    type.Converts v w := by
  cases type with
  | any =>
    obtain rfl := Option.some.inj h
    exact .any v
  | text =>
    obtain rfl := Option.some.inj h
    exact .text v.shows_toText
  | number =>
    cases v with
    | number x =>
      obtain rfl := Option.some.inj h
      exact .number x
    | text s =>
      obtain ⟨x, hx, rfl⟩ := Option.map_eq_some_iff.mp h
      obtain ⟨word, hword, hread⟩ := ofText?_eq_some_iff.mp hx
      exact .numeral hword hread
    | boolean b =>
      obtain rfl := Option.some.inj h
      cases b with
      | true => exact .one
      | false => exact .zero
    | null => exact nomatch h
  | boolean =>
    cases v with
    | number x =>
      obtain rfl := Option.some.inj h
      cases hzero : x == 0 with
      | true => exact .nothing ((Double.beq_zero_iff x).mp hzero)
      | false => exact .something fun hx => nomatch hzero.symm.trans ((Double.beq_zero_iff x).mpr hx)
    | text s =>
      obtain ⟨b, hb, rfl⟩ := Option.map_eq_some_iff.mp h
      cases b with
      | true => exact .yes (boolean?_eq_some_iff.mp hb)
      | false => exact .no (boolean?_eq_some_iff.mp hb)
    | boolean b =>
      obtain rfl := Option.some.inj h
      exact .boolean b
    | null => exact nomatch h

theorem convert?_of_converts {type : ParameterType} {v w : Value} (h : type.Converts v w) :
    type.convert? v = some w := by
  cases h with
  | any | number | one | zero | boolean => rfl
  | text hshows => simp [convert?, Value.toText_eq_iff, hshows]
  | numeral hword hread => simpa [convert?, ofText?_eq_some_iff] using ⟨_, hword, hread⟩
  | yes hword => simp [convert?, boolean?_eq_some_iff, hword]
  | no hword => simp [convert?, boolean?_eq_some_iff, hword]
  | something hx =>
    have hne := Bool.eq_false_iff.mpr (hx ∘ (Double.beq_zero_iff _).mp)
    simp [convert?, hne]
  | nothing hx => simp [convert?, Double.beq_zero_iff, hx]

/-- A value becomes what its rule in the table says. -/
theorem convert?_eq_some_iff {type : ParameterType} {v w : Value} :
    type.convert? v = some w ↔ type.Converts v w :=
  ⟨converts_of_convert?, convert?_of_converts⟩

theorem convert?_eq_none_iff {type : ParameterType} {v : Value} :
    type.convert? v = none ↔ ∀ w, ¬type.Converts v w := by
  simp only [Option.eq_none_iff_forall_ne_some, ne_eq, convert?_eq_some_iff]

/-! ## Values of a type -/

/-- Whether the value is of the type. -/
def Admits : ParameterType → Value → Prop
  | any, _ => True
  | number, v => v.type = .number
  | text, v => v.type = .text
  | boolean, v => v.type = .boolean

theorem Converts.admits {type : ParameterType} {v w : Value} (h : type.Converts v w) :
    type.Admits w := by
  cases h with
  | any => trivial
  | _ => rfl

/-- A value of the type stays what it is. -/
theorem converts_of_admits {type : ParameterType} {v : Value} (h : type.Admits v) :
    type.Converts v v := by
  cases type with
  | any => exact .any v
  | number =>
    cases v with
    | number x => exact .number x
    | text _ | boolean _ | null => exact nomatch h
  | text =>
    cases v with
    | text s => exact .text (.text s)
    | number _ | boolean _ | null => exact nomatch h
  | boolean =>
    cases v with
    | boolean b => exact .boolean b
    | number _ | text _ | null => exact nomatch h

end ParameterType

end CommandScript
