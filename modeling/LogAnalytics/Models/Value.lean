import Mathlib.Algebra.Order.Floor.Defs
import Mathlib.Data.Rat.Floor
import LogAnalytics.Models.Text
import LogAnalytics.Timeutil
/-!
# Values

The Python values a structured record can hold: what JSON decodes to, and the datetimes of a
database row. A float is its exact value, or no number at all.
-/

namespace LogAnalytics

inductive PyFloat where
  | finite (value : ℚ)
  | infinite (negative : Bool)
  | nan
  deriving DecidableEq

inductive Value where
  | none
  | bool (b : Bool)
  | int (z : Int)
  | float (f : PyFloat)
  | str (text : Text)
  | datetime (d : Datetime)
  | list (items : List Value)
  | dict (items : List (Text × Value))

/-- A `dict` with text keys, in insertion order. -/
abbrev Dict := List (Text × Value)

namespace Dict

def get? (d : Dict) (key : Text) : Option Value := (d.find? (·.1 = key)).map (·.2)

/-- `d[key] = value`: a key that is there keeps its place. -/
def set (d : Dict) (key : Text) (value : Value) : Dict :=
  if d.any (·.1 = key) then d.map fun item => if item.1 = key then (key, value) else item else d ++ [(key, value)]

/-- `d.setdefault(key, value)` -/
def setdefault (d : Dict) (key : Text) (value : Value) : Dict := if d.any (·.1 = key) then d else d ++ [(key, value)]

theorem mem_set {d : Dict} {key : Text} {value : Value} {item : Text × Value} (h : item ∈ d.set key value) :
    item ∈ d ∨ item = (key, value) := by
  unfold set at h
  split at h
  · obtain ⟨other, hother, rfl⟩ := List.mem_map.1 h
    split
    · exact .inr rfl
    · exact .inl hother
  · simpa using h

theorem mem_setdefault {d : Dict} {key : Text} {value : Value} {item : Text × Value}
    (h : item ∈ d.setdefault key value) : item ∈ d ∨ item = (key, value) := by
  unfold setdefault at h
  split at h
  · exact .inl h
  · simpa using h

/-! ### Looking up -/

theorem get?_cons (item : Text × Value) (record : Dict) (name : Text) :
    Dict.get? (item :: record) name = if item.1 = name then some item.2 else record.get? name := by
  unfold Dict.get?
  rw [List.find?_cons]
  by_cases h : item.1 = name <;> simp [h]

theorem get?_map (record : Dict) (key name : Text) (v : Value) :
    Dict.get? (record.map fun item => if item.1 = key then (key, v) else item) name =
      if name = key ∧ record.any (·.1 = key) = true then some v else record.get? name := by
  induction record with
  | nil => simp [Dict.get?]
  | cons item record ih =>
    rw [List.map_cons, get?_cons, get?_cons, List.any_cons, ih]
    by_cases hname : name = key
    · subst hname
      by_cases hitem : item.1 = name
      · simp [hitem]
      · rw [if_neg hitem, if_neg hitem, if_neg hitem, decide_eq_false hitem, Bool.false_or]
    · have hother : key ≠ name := fun h => hname h.symm
      by_cases hitem : item.1 = key <;> simp [hitem, hname, hother]

theorem get?_append (record : Dict) (key name : Text) (v : Value) (h : record.any (·.1 = key) = false) :
    Dict.get? (record ++ [(key, v)]) name = if name = key then some v else record.get? name := by
  induction record with
  | nil =>
    rw [List.nil_append, get?_cons]
    simp [eq_comm]
  | cons item record ih =>
    rw [List.any_cons, Bool.or_eq_false_iff, decide_eq_false_iff_not] at h
    rw [List.cons_append, get?_cons, get?_cons, ih h.2]
    by_cases hname : name = key
    · subst hname
      simp [h.1]
    · simp [hname]

theorem get?_set (record : Dict) (key name : Text) (v : Value) :
    (record.set key v).get? name = if name = key then some v else record.get? name := by
  rw [set]
  split
  · next hany => rw [get?_map, hany]; simp
  · next hnone => exact get?_append record key name v (Bool.eq_false_of_not_eq_true hnone)

end Dict

/-- The type a message names. -/
def Value.typeName : Value → String
  | .none => "NoneType"
  | .bool _ => "bool"
  | .int _ => "int"
  | .float _ => "float"
  | .str _ => "str"
  | .datetime _ => "datetime"
  | .list _ => "list"
  | .dict _ => "dict"

/-- `value / divisor`; infinities and NaN stay what they are. -/
def PyFloat.divide (f : PyFloat) (divisor : Nat) : PyFloat :=
  match f with
  | .finite q => .finite (q / divisor)
  | f => f

/-- The first integer with more than 4300 digits. -/
def textLimit : Nat := 10 ^ 4300

/-- The integers from here on round to no float. -/
def floatLimit : Nat := 2 ^ 1024 - 2 ^ 970

/-- What `str` and `repr` make of an integer: at most 4300 digits. -/
def reprInt (z : Int) : Except Exn Text :=
  if z.natAbs < textLimit then .ok (Text.ofString (toString z))
  else .error ⟨.valueError, "Exceeds the limit (4300 digits) for integer string conversion; use sys.set_int_max_str_digits() to increase the limit"⟩

end LogAnalytics
