import LogAnalytics.Models.Text
import LogAnalytics.Models.Value
/-!
# Masking

`Masker.mask_text` and what `mask_object` makes of nested values. The patterns are compiled regular expressions, so a rule is given by what
`pattern.sub(replacement, text)` makes of a text, and the triggers by what their search finds.
-/

namespace LogAnalytics

/-- `REDACTED` -/
def redacted : Text := Text.ofString "***REDACTED***"

/-- `MAX_MASKABLE_LENGTH` -/
def maxMaskableLength : Nat := 64 * 1024

structure Masker where
  enabled : Bool := true
  lower : Text → Text
  /-- `_triggers` finds something in a text in lower case; without rules it finds nothing. -/
  mayContainSecret : Text → Bool
  /-- `pattern.sub(replacement, ·)` for each rule, in order. -/
  rules : List (Text → Text)

namespace Masker

/-- A text of maskable length. -/
def maskShort (m : Masker) (text : Text) : Text :=
  if m.mayContainSecret (m.lower text) then m.rules.foldl (fun text rule => rule text) text else text

/-- `mask_text`: of a longer text the head is masked and the rest dropped. -/
def maskText (m : Masker) (text : Text) : Text :=
  if m.enabled = false ∨ text = [] then text
  else if maxMaskableLength < text.length then
    m.maskShort (text.take maxMaskableLength) ++ Text.ofString "...[truncated " ++
      Text.ofString (toString (text.length - maxMaskableLength)) ++ Text.ofString " chars]"
  else m.maskShort text

end Masker

/-! ## Structured data -/

/-- `SENSITIVE_FIELD_NAMES` -/
def sensitiveFieldNames : List Text :=
  ["password", "passwd", "pwd", "secret", "token", "access_token", "refresh_token", "id_token", "api_key", "apikey",
    "api-key", "authorization", "auth", "proxy-authorization", "cookie", "set-cookie", "session", "session_id",
    "sessionid", "private_key", "client_secret", "credit_card", "card_number", "cvv", "ssn", "otp",
    "x-api-key"].map Text.ofString

structure ObjectMasker extends Masker where
  /-- `_field_names` -/
  fieldNames : List Text := sensitiveFieldNames

namespace ObjectMasker

variable (m : ObjectMasker)

mutual

def maskObject : Value → Value
  | .str text => .str (m.maskText text)
  | .list items => if m.enabled then .list (maskList items) else .list items
  | .dict items => if m.enabled then .dict (maskItems items) else .dict items
  | value => value

def maskList : List Value → List Value
  | [] => []
  | value :: items => maskObject value :: maskList items

/-- `mask_value` of every item: under a sensitive name nothing is kept. -/
def maskItems : List (Text × Value) → List (Text × Value)
  | [] => []
  | (key, value) :: items =>
    (key, if m.lower key ∈ m.fieldNames then .str redacted else maskObject value) :: maskItems items

end

def maskMapping (data : Dict) : Dict := if m.enabled then m.maskItems data else data

end ObjectMasker

/-- The number a value is to `==`. -/
def Value.number : Value → Option PyFloat
  | .bool b => some (.finite (if b then 1 else 0))
  | .int z => some (.finite z)
  | .float f => some f
  | _ => .none

mutual

/-- `==` of two values, dicts having their keys in the same order. A NaN is compared only with
itself. -/
def Value.same : Value → Value → Bool
  | .none, .none => true
  | .str a, .str b => a = b
  | .datetime a, .datetime b => a = b
  | .list a, .list b => Value.sameList a b
  | .dict a, .dict b => Value.sameItems a b
  | a, b => a.number.isSome && a.number = b.number

def Value.sameList : List Value → List Value → Bool
  | [], [] => true
  | a :: as, b :: bs => a.same b && Value.sameList as bs
  | _, _ => false

def Value.sameItems : List (Text × Value) → List (Text × Value) → Bool
  | [], [] => true
  | (k, a) :: as, (l, b) :: bs => k = l && a.same b && Value.sameItems as bs
  | _, _ => false

end

theorem Value.eq_of_same_str {text : Text} {value : Value} (h : Value.same (.str text) value = true) :
    value = .str text := by
  cases value <;> simp_all [Value.same, Value.number]

namespace ObjectMasker

variable {m : ObjectMasker}

mutual

/-- What masking leaves equal it leaves as it is. -/
theorem maskObject_of_same {value : Value} (h : (m.maskObject value).same value = true) : m.maskObject value = value := by
  cases value with
  | str text => exact (Value.eq_of_same_str h).symm
  | list items =>
    rw [maskObject] at h ⊢
    split at h
    · next hm => rw [if_pos hm, maskList_of_same (by simpa [Value.same] using h)]
    · next hm => rw [if_neg hm]
  | dict items =>
    rw [maskObject] at h ⊢
    split at h
    · next hm => rw [if_pos hm, maskItems_of_same (by simpa [Value.same] using h)]
    · next hm => rw [if_neg hm]
  | _ => rfl

theorem maskList_of_same {items : List Value} (h : Value.sameList (m.maskList items) items = true) :
    m.maskList items = items := by
  cases items with
  | nil => rfl
  | cons value items =>
    simp only [maskList, Value.sameList, Bool.and_eq_true] at h
    rw [maskList, maskObject_of_same h.1, maskList_of_same h.2]

theorem maskItems_of_same {items : List (Text × Value)} (h : Value.sameItems (m.maskItems items) items = true) :
    m.maskItems items = items := by
  cases items with
  | nil => rfl
  | cons item items =>
    obtain ⟨key, value⟩ := item
    simp only [maskItems, Value.sameItems, Bool.and_eq_true] at h
    obtain ⟨⟨-, hvalue⟩, hitems⟩ := h
    rw [maskItems, maskItems_of_same hitems]
    split at hvalue
    · next hkey => rw [if_pos hkey, Value.eq_of_same_str hvalue]
    · next hkey => rw [if_neg hkey, maskObject_of_same hvalue]

end

end ObjectMasker

end LogAnalytics
