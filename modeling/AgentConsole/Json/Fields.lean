import AgentConsole.Json.Basic

/-!
# Records in JSON

A record is written as an object, whose members may come in any order, or as an array of its fields
in their fixed order, where trailing ones may be missing.  A field may have several spellings, which
count as one key; a key given twice is an error, and members with other keys are skipped unread.

* `Json.slots?` : the value given for each field of a record;
* `Json.slots?_perm` : the order of the members does not matter;
* `Json.slots?_of_unknown` : a member with another key changes nothing.
-/

namespace AgentConsole.Json

/-- The value of the field with the given spellings: none when it is missing, an error when it is
given more than once. -/
def slot? (members : Members) (spellings : List String) : Option (Option Json) :=
  match members.filter fun m ↦ spellings.contains m.1 with
  | [] => some none
  | [m] => some (some m.2)
  | _ => none

/-- The value of each field of a record, in the order of the fields. -/
def slots? (fields : List (List String)) : Json → Option (List (Option Json))
  | .object members => fields.mapM (slot? members)
  | .array items =>
    if items.length ≤ fields.length then
      some (items.map some ++ List.replicate (fields.length - items.length) none)
    else none
  | _ => none

/-! ## Fields -/

/-- A field that may be missing or `null`. -/
def optional (read : Json → Option α) : Option Json → Option (Option α)
  | none => some none
  | some .null => some none
  | some j => (read j).map some

/-- A field with a default when it is missing. -/
def defaulted (default : α) (read : Json → Option α) : Option Json → Option α
  | none => some default
  | some j => read j

/-- A field that must be given. -/
def required (read : Json → Option α) : Option Json → Option α
  | none => none
  | some j => read j

/-! ## Values of fields -/

/-- A text. -/
def asString : Json → Option String
  | .string s => some s
  | _ => none

/-- A truth value. -/
def asBool : Json → Option Bool
  | .bool b => some b
  | _ => none

/-- A number of any kind, in floating point. -/
def asFloat : Json → Option Float
  | .number n => some n.toFloat
  | _ => none

/-- A natural number below a bound. -/
def asNat (bound : Nat) : Json → Option Nat
  | .number (.int n) => if 0 ≤ n ∧ n < bound then some n.toNat else none
  | _ => none

/-- The name of a variant: a text, or an object that gives the name the value `null`. -/
def asVariant : Json → Option String
  | .string s => some s
  | .object [(name, .null)] => some name
  | _ => none

/-- A list of values of one kind. -/
def asList (read : Json → Option α) : Json → Option (List α)
  | .array items => items.mapM read
  | _ => none

/-- Any sound value, in normal form. -/
def asValue (room : Nat) (j : Json) : Option Json :=
  if sound room j then some (normal j) else none

/-! ## Writing records -/

/-- A member that is written only when it has a value. -/
def member (key : String) (value : Option Json) : Members :=
  match value with
  | some j => [(key, j)]
  | none => []

/-! ## The order of members -/

theorem slot?_perm {l₁ l₂ : Members} (h : l₁.Perm l₂) (spellings : List String) :
    slot? l₁ spellings = slot? l₂ spellings := by
  have hp := h.filter fun m ↦ spellings.contains m.1
  unfold slot?
  generalize l₁.filter _ = f₁ at hp ⊢
  generalize l₂.filter _ = f₂ at hp ⊢
  match f₁, f₂, hp.length_eq with
  | [], [], _ => rfl
  | [a], [b], _ => rw [List.singleton_perm_singleton.1 hp]
  | _ :: _ :: _, _ :: _ :: _, _ => rfl

/-- The order of the members does not matter. -/
theorem slots?_perm {l₁ l₂ : Members} (h : l₁.Perm l₂) (fields : List (List String)) :
    slots? fields (.object l₁) = slots? fields (.object l₂) := by
  have hf : slot? l₁ = slot? l₂ := funext (slot?_perm h)
  rw [slots?, slots?, hf]

/-- A member with a key that no field has changes nothing. -/
theorem slots?_of_unknown {fields : List (List String)} {key : String}
    (h : ∀ spellings ∈ fields, key ∉ spellings) (value : Json) (members : Members) :
    slots? fields (.object ((key, value) :: members)) = slots? fields (.object members) := by
  have hf : ∀ spellings ∈ fields, slot? ((key, value) :: members) spellings =
      slot? members spellings := by
    intro spellings hs
    simp [slot?, h spellings hs]
  simp only [slots?]
  induction fields with
  | nil => rfl
  | cons f fs ih =>
    simp only [List.mapM_cons]
    rw [hf f (by simp), ih (fun s hs ↦ h s (by simp [hs])) (fun s hs ↦ hf s (by simp [hs]))]

end AgentConsole.Json
