import AirDrive.Data.Text
import Mathlib.Data.Int.Notation

set_option relaxedAutoImplicit false
set_option autoImplicit false

/-!
# JSON values

Values as a decoder sees them, with the accessors that answer nothing for a value of another kind.

## Main definitions

* `Data.Json` — values.
* `Data.Json.get`, `Data.Json.asStr`, `Data.Json.asBool`, `Data.Json.asArray`, `Data.Json.asInt` —
  the accessors.
-/

namespace Data

/-- A value. -/
inductive Json
  | null
  | bool (b : Bool)
  | int (n : ℤ)
  /-- A number that is not written as an integer. -/
  | float (literal : String)
  | str (s : String)
  | arr (items : List Json)
  | obj (fields : List (String × Json))

namespace Json

/-- The value of a field. -/
def get (key : String) : Json → Option Json
  | .obj fields => fields.lookup key
  | _ => none

@[simp] lemma get_obj_nil (key : String) : get key (.obj []) = none := rfl

@[simp] lemma get_obj_cons (key name : String) (v : Json) (fields : List (String × Json)) :
    get key (.obj ((name, v) :: fields)) =
      if key = name then some v else get key (.obj fields) := by
  by_cases h : key = name
  · rw [if_pos h, get, List.lookup_cons, beq_iff_eq.mpr h]
  · rw [if_neg h, get, List.lookup_cons, beq_eq_false_iff_ne.mpr h, get]

/-- A string. -/
def asStr : Json → Option String
  | .str s => some s
  | _ => none

/-- A truth value. -/
def asBool : Json → Option Bool
  | .bool b => some b
  | _ => none

/-- The items of an array. -/
def asArray : Json → Option (List Json)
  | .arr items => some items
  | _ => none

/-- An integer between `-bound` and `bound`. -/
def asInt (bound : ℕ) : Json → Option ℤ
  | .int n => if -(bound : ℤ) ≤ n ∧ n < bound then some n else none
  | _ => none

/-- A natural number below the bound is one. -/
lemma asInt_natCast {bound n : ℕ} (h : n < bound) : asInt bound (.int n) = some (n : ℤ) :=
  if_pos ⟨by omega, by omega⟩

end Json

end Data
