import AgentConsole.Decimal.Layout

/-!
# JSON values

A value as it stands in a text: members keep their order and may repeat.  A well-formed leaf that
denotes nothing, such as a string with half of a surrogate pair or a numeral beyond the range of
numbers, is `void`; so is an object with such a key.  A reader that skips a value does not care, one
that wants the value asks first whether it is `sound`.

* `Json.sound` : no `void` inside, and at most so many containers within each other;
* `Json.normal` : the value with the members of each object sorted by key, where of several members
  with one key the last counts.
-/

namespace AgentConsole

/-- A number is an integer of 64 bits, with or without sign, or a floating-point number. -/
inductive Number where
  | int (n : Int)
  | float (x : Float)

/-- The value of a number in floating point. -/
def Number.toFloat : Number → Float
  | .int n => Float.ofInt n
  | .float x => x

/-- JSON values. -/
inductive Json where
  | null
  | bool (b : Bool)
  | number (n : Number)
  | string (s : String)
  | array (items : List Json)
  | object (members : List (String × Json))
  | void

namespace Json

/-- The members of an object, in order. -/
abbrev Members := List (String × Json)

mutual

/-- Whether a value denotes something and nests at most `room` containers. -/
def sound : Nat → Json → Bool
  | _, .void => false
  | room, .array items => room != 0 && soundItems (room - 1) items
  | room, .object members => room != 0 && soundMembers (room - 1) members
  | _, .null => true
  | _, .bool _ => true
  | _, .number _ => true
  | _, .string _ => true

/-- Whether every item is sound. -/
def soundItems : Nat → List Json → Bool
  | _, [] => true
  | room, j :: rest => sound room j && soundItems room rest

/-- Whether the value of every member is sound. -/
def soundMembers : Nat → Members → Bool
  | _, [] => true
  | room, (_, j) :: rest => sound room j && soundMembers room rest

end

theorem soundItems_eq_all (room : Nat) (items : List Json) :
    soundItems room items = items.all (sound room) := by
  induction items with
  | nil => rfl
  | cons j rest ih => simp [soundItems, ih]

theorem soundMembers_eq_all (room : Nat) (members : Members) :
    soundMembers room members = members.all fun m ↦ sound room m.2 := by
  induction members with
  | nil => rfl
  | cons m rest ih => simp [soundMembers, ih]

/-- Adds a member to members sorted by key, unless its key is there already. -/
def addMember (key : String) (value : Json) : Members → Members
  | [] => [(key, value)]
  | m :: rest =>
    if key < m.1 then (key, value) :: m :: rest
    else if key = m.1 then m :: rest
    else m :: addMember key value rest

mutual

/-- The value with sorted members in every object; of members with one key the last counts. -/
def normal : Json → Json
  | .array items => .array (normalItems items)
  | .object members => .object (normalMembers members)
  | .null => .null
  | .bool b => .bool b
  | .number n => .number n
  | .string s => .string s
  | .void => .void

/-- The normal forms of some items. -/
def normalItems : List Json → List Json
  | [] => []
  | j :: rest => normal j :: normalItems rest

/-- Members sorted by key, with normal values. -/
def normalMembers : Members → Members
  | [] => []
  | (key, j) :: rest => addMember key (normal j) (normalMembers rest)

end

theorem normalItems_eq_map (items : List Json) : normalItems items = items.map normal := by
  induction items with
  | nil => rfl
  | cons j rest ih => simp [normalItems, ih]

/-- Whether the value is `null`. -/
def isNull : Json → Bool
  | .null => true
  | _ => false

end Json

end AgentConsole
