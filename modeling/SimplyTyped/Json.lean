import SimplyTyped.Number.Binary64

/-!
# SimplyTyped.Json — JSON values

Whole numbers and binary fractions are kept apart.  An object is a list of fields in the order of their first writing;
a value that was read has no key twice.
-/

namespace SimplyTyped

/-- A JSON value. -/
inductive Json where
  | null
  | bool (value : Bool)
  | int (value : Int)
  | float (value : Binary64)
  | string (value : String)
  | array (items : List Json)
  | object (fields : List (String × Json))
  deriving Inhabited

namespace Json

/-- The value of the first field with a key. -/
def lookup (key : String) : List (String × Json) → Option Json
  | [] => none
  | (k, v) :: rest => if k = key then some v else lookup key rest

/-- The value of a field of an object. -/
def field? (key : String) : Json → Option Json
  | object fields => lookup key fields
  | _ => none

/-- The fields with `key` given `value`: in its old place, or at the end when it is new. -/
def put (key : String) (value : Json) : List (String × Json) → List (String × Json)
  | [] => [(key, value)]
  | (k, v) :: rest => if k = key then (k, value) :: rest else (k, v) :: put key value rest

theorem sizeOf_lookup {key : String} {fields : List (String × Json)} {v : Json}
    (h : lookup key fields = some v) : sizeOf v < sizeOf fields := by
  induction fields with
  | nil => simp [lookup] at h
  | cons f rest ih =>
    obtain ⟨k, w⟩ := f
    rw [lookup] at h
    by_cases hk : k = key
    · rw [if_pos hk] at h
      obtain rfl := Option.some.inj h
      simp
      omega
    · rw [if_neg hk] at h
      have := ih h
      simp
      omega

/-- A field is smaller than its object. -/
theorem sizeOf_field? {key : String} {r v : Json} (h : r.field? key = some v) : sizeOf v < sizeOf r := by
  cases r with
  | object fields =>
    have := sizeOf_lookup (show lookup key fields = some v from h)
    simp
    omega
  | _ => simp [field?] at h

end Json

end SimplyTyped
