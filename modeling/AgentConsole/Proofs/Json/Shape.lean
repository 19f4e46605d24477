import AgentConsole.Proofs.Json.Record
import Mathlib.Data.List.Forall2

/-!
# Shapes of records

A reader of a record does three things at once: it finds the values of the fields, checks them, and
makes something of them.  What it accepts can be said without the rest, as a shape.  An object has
the shape of a record if it has at most one value for each field, and an acceptable one; an array
has it if its items are acceptable for the fields at their places.  Members with other keys do not
matter.

A value that is kept is kept in normal form, and the same question may be asked of it again.  The
answer can be another one: an object that gives a field twice does not have the shape, and its
normal form may.  Where no key is repeated the answer is the same (`Json.Lasting`).

* `Json.isRecord_iff` : shapes of records and the values of fields.
* `Json.exists_optional_iff`, `Json.exists_defaulted_iff`, `Json.exists_required_iff` : what is
  accepted for a field is what its reader can read.
* `Json.lasting_isRecord` : the shape of a record lasts if the shapes of its fields do.
-/

namespace AgentConsole.Json

/-! ## Shapes -/

/-- What a field asks for. -/
inductive Presence where
  /-- A value. -/
  | required
  /-- A value or nothing. -/
  | defaulted
  /-- A value, nothing or `null`. -/
  | optional

/-- A field of a record. -/
structure Field where
  key : String
  presence : Presence
  shape : Json → Prop

/-- What may be given for a field. -/
def Field.Accepts (f : Field) : Option Json → Prop
  | none => f.presence ≠ .required
  | some j => (f.presence = .optional ∧ j = .null) ∨ f.shape j

/-- The values that an object has for a key. -/
def valuesAt (key : String) (members : Members) : List Json :=
  (members.filter fun m ↦ m.1 = key).map Prod.snd

/-- A record with the given fields. -/
def IsRecord (fields : List Field) : Json → Prop
  | .object members => ∀ f ∈ fields, ∃ given, valuesAt f.key members = given.toList ∧
    f.Accepts given
  | .array items => items.length ≤ fields.length ∧
    ∀ (i : Nat), ∀ f ∈ fields[i]?, f.Accepts items[i]?
  | _ => False

/-- A text. -/
def IsText : Json → Prop
  | .string _ => True
  | _ => False

/-- The name of a variant. -/
def IsName : Json → Prop
  | .string _ => True
  | .object [(_, .null)] => True
  | _ => False

/-- A field with a text, which may also be missing or `null`. -/
def Field.text (key : String) : Field := ⟨key, .optional, IsText⟩

/-- A list of values of one shape. -/
def IsList (shape : Json → Prop) : Json → Prop
  | .array items => ∀ j ∈ items, shape j
  | _ => False

/-! ## Fields and their values -/

theorem slot?_eq_some_iff {members : Members} {key : String} {given : Option Json} :
    slot? members [key] = some given ↔ valuesAt key members = given.toList := by
  have hfilter :
      (members.filter fun m ↦ [key].contains m.1) = members.filter fun m ↦ m.1 = key := by
    refine List.filter_congr fun m _ ↦ ?_
    rw [List.contains_cons, List.contains_nil, Bool.or_false]
    rfl
  rw [slot?, valuesAt, hfilter]
  generalize members.filter (fun m ↦ m.1 = key) = found
  rcases found with _ | ⟨m, _ | ⟨m', rest⟩⟩
  · cases given <;> simp
  · cases given <;> simp
  · cases given <;> simp

/-- The items of an array are taken for the fields in their order; there may be too few of them. -/
theorem forall₂_accepts_iff {fields : List Field} {items : List Json}
    (h : items.length ≤ fields.length) :
    List.Forall₂ Field.Accepts fields
        (items.map some ++ List.replicate (fields.length - items.length) none) ↔
      ∀ (i : Nat), ∀ f ∈ fields[i]?, f.Accepts items[i]? := by
  induction fields generalizing items with
  | nil =>
    cases items with
    | nil => simp
    | cons j items => simp at h
  | cons f fields ih =>
    rw [← Nat.and_forall_add_one]
    cases items with
    | nil =>
      change List.Forall₂ _ (f :: fields) (none :: List.replicate fields.length none) ↔ _
      rw [List.forall₂_cons]
      have htail := @ih [] (Nat.zero_le _)
      exact and_congr (by simp) htail
    | cons j items =>
      rw [List.map_cons, List.cons_append, List.length_cons, List.length_cons,
        Nat.add_sub_add_right, List.forall₂_cons]
      exact and_congr (by simp) (ih (Nat.le_of_succ_le_succ h))

/-- A value has the shape of a record if the values of its fields are accepted. -/
theorem isRecord_iff {fields : List Field} {j : Json} :
    IsRecord fields j ↔ ∃ slots, j.slots? (fields.map fun f ↦ [f.key]) = some slots ∧
      List.Forall₂ Field.Accepts fields slots := by
  cases j with
  | array items =>
    rw [IsRecord, slots?, List.length_map]
    constructor
    · rintro ⟨hlength, hitems⟩
      exact ⟨_, if_pos hlength, (forall₂_accepts_iff hlength).mpr hitems⟩
    · rintro ⟨slots, hslots, haccepts⟩
      split at hslots
      · next hlength =>
        cases hslots
        exact ⟨hlength, (forall₂_accepts_iff hlength).mp haccepts⟩
      · cases hslots
  | object members =>
    simp only [IsRecord, slots?]
    induction fields with
    | nil => simp
    | cons f fields ih =>
      rw [List.forall_mem_cons, ih, List.map_cons, List.mapM_cons]
      constructor
      · rintro ⟨⟨given, hgiven, haccepts⟩, slots, hslots, hall⟩
        refine ⟨given :: slots, ?_, .cons haccepts hall⟩
        rw [slot?_eq_some_iff.mpr hgiven, hslots]
        rfl
      · rintro ⟨slots, hslots, hall⟩
        obtain ⟨given, hgiven, hslots⟩ := Option.bind_eq_some_iff.mp hslots
        obtain ⟨rest, hrest, hslots⟩ := Option.bind_eq_some_iff.mp hslots
        cases hslots
        cases hall with
        | cons haccepts hall =>
          exact ⟨⟨given, slot?_eq_some_iff.mp hgiven, haccepts⟩, rest, hrest, hall⟩
  | _ => simp [IsRecord, slots?]

section

variable {α : Type} {read : Json → Option α} {f : Field} {slot : Option Json}

theorem exists_optional_iff (hf : f.presence = .optional)
    (h : ∀ j ∈ slot, (∃ a, read j = some a) ↔ f.shape j) :
    (∃ a, optional read slot = some a) ↔ f.Accepts slot := by
  cases slot with
  | none => simp [optional, Field.Accepts, hf]
  | some j =>
    rw [Field.Accepts, ← h j rfl]
    cases j <;> simp [optional, hf]

theorem exists_defaulted_iff (hf : f.presence = .defaulted) {default : α}
    (h : ∀ j ∈ slot, (∃ a, read j = some a) ↔ f.shape j) :
    (∃ a, defaulted default read slot = some a) ↔ f.Accepts slot := by
  cases slot with
  | none => simp [defaulted, Field.Accepts, hf]
  | some j =>
    rw [Field.Accepts, ← h j rfl]
    simp [defaulted, hf]

theorem exists_required_iff (hf : f.presence = .required)
    (h : ∀ j ∈ slot, (∃ a, read j = some a) ↔ f.shape j) :
    (∃ a, required read slot = some a) ↔ f.Accepts slot := by
  cases slot with
  | none => simp [required, Field.Accepts, hf]
  | some j =>
    rw [Field.Accepts, ← h j rfl]
    simp [required, hf]

end

theorem exists_asString_iff {j : Json} : (∃ s, j.asString = some s) ↔ IsText j := by
  cases j <;> simp [asString, IsText]

theorem exists_text_iff {key : String} {slot : Option Json} :
    (∃ s, optional asString slot = some s) ↔ (Field.text key).Accepts slot :=
  exists_optional_iff rfl fun _ _ ↦ exists_asString_iff

theorem exists_asVariant_iff {j : Json} : (∃ name, j.asVariant = some name) ↔ IsName j := by
  unfold asVariant IsName
  split <;> simp

theorem exists_asValue_iff {room : Nat} {j : Json} (h : j.sound room = true) :
    (∃ v, asValue room j = some v) ↔ True := by
  simp [asValue, h]

theorem exists_asList_iff {α : Type} {read : Json → Option α} {shape : Json → Prop} {j : Json}
    (h : ∀ i, PartOf i j → ((∃ a, read i = some a) ↔ shape i)) :
    (∃ l, asList read j = some l) ↔ IsList shape j := by
  cases j with
  | array items =>
    rw [asList, IsList, ← Option.isSome_iff_exists, isSome_mapM_iff]
    refine forall₂_congr fun i hi ↦ ?_
    rw [Option.isSome_iff_exists]
    exact h i (.item hi)
  | _ => simp [asList, IsList]

/-! ## Shapes of changed values -/

/-- A change that keeps the form of some values.  Numbers stay numbers, the items of an array and
the members of an object are changed one by one, and members may be moved. -/
structure KeepsForm (change : Json → Json) (among : Json → Prop) : Prop where
  null : change .null = .null
  bool : ∀ b, change (.bool b) = .bool b
  number : ∀ {n}, among (.number n) → ∃ n', change (.number n) = .number n'
  string : ∀ s, change (.string s) = .string s
  array : ∀ {items}, among (.array items) →
    change (.array items) = .array (items.map change) ∧ ∀ j ∈ items, among j
  object : ∀ {members}, among (.object members) →
    ∃ members', change (.object members) = .object members' ∧
    members'.Perm (members.map fun m ↦ (m.1, change m.2)) ∧ ∀ m ∈ members, among m.2
  void : among .void → change .void = .void

/-- A shape that values have after a change exactly if they have it before. -/
def Lasting (change : Json → Json) (among : Json → Prop) (shape : Json → Prop) : Prop :=
  ∀ ⦃j⦄, among j → (shape (change j) ↔ shape j)

section

variable {change : Json → Json} {among : Json → Prop}

/-- A value and what it is changed to, by their form. -/
theorem KeepsForm.forms (h : KeepsForm change among) {P : Json → Json → Prop}
    (leaf : ∀ j, P j j) (number : ∀ n n', P (.number n) (.number n'))
    (array : ∀ items, (∀ j ∈ items, among j) → P (.array items) (.array (items.map change)))
    (object : ∀ members members', members'.Perm (members.map fun m ↦ (m.1, change m.2)) →
      (∀ m ∈ members, among m.2) → P (.object members) (.object members'))
    {j : Json} (hj : among j) : P j (change j) := by
  cases j with
  | null =>
    rw [h.null]
    exact leaf _
  | bool b =>
    rw [h.bool]
    exact leaf _
  | string s =>
    rw [h.string]
    exact leaf _
  | void =>
    rw [h.void hj]
    exact leaf _
  | number n =>
    obtain ⟨n', hn⟩ := h.number hj
    rw [hn]
    exact number n n'
  | array items =>
    obtain ⟨heq, hitems⟩ := h.array hj
    rw [heq]
    exact array items hitems
  | object members =>
    obtain ⟨members', heq, hperm, hmembers⟩ := h.object hj
    rw [heq]
    exact object members members' hperm hmembers

theorem KeepsForm.eq_null_iff (h : KeepsForm change among) {j : Json} (hj : among j) :
    change j = .null ↔ j = .null :=
  h.forms (P := fun j j' ↦ j' = .null ↔ j = .null) (fun _ ↦ Iff.rfl) (by simp)
    (by simp) (by simp) hj

theorem lasting_true : Lasting change among fun _ ↦ True :=
  fun _ _ ↦ Iff.rfl

theorem lasting_isText (h : KeepsForm change among) : Lasting change among IsText :=
  fun _ ↦ h.forms (P := fun j j' ↦ IsText j' ↔ IsText j) (fun _ ↦ Iff.rfl)
    (fun _ _ ↦ Iff.rfl) (fun _ _ ↦ Iff.rfl) (fun _ _ _ _ ↦ Iff.rfl)

theorem lasting_isName (h : KeepsForm change among) : Lasting change among IsName := by
  refine fun _ ↦ h.forms (P := fun j j' ↦ IsName j' ↔ IsName j) (fun _ ↦ Iff.rfl)
    (fun _ _ ↦ Iff.rfl)
    (fun _ _ ↦ Iff.rfl) fun members members' hperm hmembers ↦ ?_
  match members, hmembers, hperm with
  | [], _, hperm => rw [List.perm_nil.mp hperm]
  | [m], hmembers, hperm =>
    rw [List.perm_singleton.mp hperm]
    have hname : ∀ key v, IsName (.object [(key, v)]) ↔ v = .null := by
      intro key v
      cases v <;> simp [IsName]
    rw [hname, hname, h.eq_null_iff (hmembers m (List.mem_singleton_self m))]
  | m :: m' :: ms, _, hperm =>
    match members', hperm.length_eq with
    | _ :: _ :: _, _ => simp [IsName]

theorem lasting_isList (h : KeepsForm change among) {shape : Json → Prop}
    (hshape : Lasting change among shape) : Lasting change among (IsList shape) := by
  refine fun _ ↦ h.forms (P := fun j j' ↦ IsList shape j' ↔ IsList shape j)
    (fun _ ↦ Iff.rfl)
    (fun _ _ ↦ Iff.rfl) (fun items hitems ↦ ?_) (fun _ _ _ _ ↦ Iff.rfl)
  rw [IsList, IsList, List.forall_mem_map]
  exact forall₂_congr fun i hi ↦ hshape (hitems i hi)

theorem KeepsForm.accepts_iff (h : KeepsForm change among) {f : Field}
    (hf : Lasting change among f.shape) {slot : Option Json} (hslot : ∀ j ∈ slot, among j) :
    f.Accepts (slot.map change) ↔ f.Accepts slot := by
  cases slot with
  | none => rfl
  | some j =>
    have hj := hslot j rfl
    rw [Option.map_some, Field.Accepts, Field.Accepts, h.eq_null_iff hj, hf hj]

theorem eq_toList_of_perm {l : List Json} {given : Option Json} (h : l.Perm given.toList) :
    l = given.toList := by
  cases given with
  | none => exact List.perm_nil.mp h
  | some j => exact List.perm_singleton.mp h

theorem exists_of_toList_perm_map {l : List Json} {given : Option Json}
    (h : given.toList.Perm (l.map change)) :
    ∃ given' : Option Json, l = given'.toList ∧ given'.map change = given := by
  have hmap := eq_toList_of_perm h.symm
  cases given with
  | none => exact ⟨none, List.map_eq_nil_iff.mp hmap, rfl⟩
  | some j =>
    obtain ⟨j', rfl, rfl⟩ := List.map_eq_singleton_iff.mp hmap
    exact ⟨some j', rfl, rfl⟩

/-- The values for a key are changed like all others. -/
theorem valuesAt_perm {members members' : Members}
    (h : members'.Perm (members.map fun m ↦ (m.1, change m.2))) (key : String) :
    (valuesAt key members').Perm ((valuesAt key members).map change) := by
  have hperm := (h.filter fun m ↦ m.1 = key).map Prod.snd
  have heq :
      valuesAt key (members.map fun m ↦ (m.1, change m.2)) =
        (valuesAt key members).map change := by
    simp [valuesAt, List.filter_map, Function.comp_def]
  rw [valuesAt, ← heq]
  exact hperm

/-- The shape of a record lasts if the shapes of its fields do. -/
theorem lasting_isRecord (h : KeepsForm change among) {fields : List Field}
    (hfields : ∀ f ∈ fields, Lasting change among f.shape) :
    Lasting change among (IsRecord fields) := by
  refine fun _ ↦ h.forms (P := fun j j' ↦ IsRecord fields j' ↔ IsRecord fields j)
    (fun _ ↦ Iff.rfl)
    (fun _ _ ↦ Iff.rfl) (fun items hitems ↦ ?_) fun members members' hmoved hmembers ↦ ?_
  · rw [IsRecord, IsRecord, List.length_map]
    refine and_congr_right fun _ ↦ forall_congr' fun i ↦ forall₂_congr fun f hf ↦ ?_
    rw [List.getElem?_map]
    refine h.accepts_iff (hfields f (List.mem_of_getElem? hf)) fun j hj ↦ ?_
    exact hitems j (List.mem_of_getElem? hj)
  · rw [IsRecord, IsRecord]
    refine forall₂_congr fun f hf ↦ ?_
    have hperm := valuesAt_perm hmoved f.key
    have hamong : ∀ given : Option Json, valuesAt f.key members = given.toList →
        ∀ j ∈ given, among j := by
      intro given hgiven j hj
      have hmem : j ∈ valuesAt f.key members := by
        rw [hgiven]
        exact Option.mem_toList.mpr hj
      obtain ⟨m, hm, rfl⟩ := List.mem_map.mp hmem
      exact hmembers m (List.mem_filter.mp hm).1
    constructor
    · rintro ⟨given, hgiven, haccepts⟩
      rw [hgiven] at hperm
      obtain ⟨given, hvalues, rfl⟩ := exists_of_toList_perm_map hperm
      exact ⟨given, hvalues, (h.accepts_iff (hfields f hf) (hamong given hvalues)).mp haccepts⟩
    · rintro ⟨given, hgiven, haccepts⟩
      rw [hgiven, ← Option.toList_map] at hperm
      refine ⟨given.map change, eq_toList_of_perm hperm, ?_⟩
      exact (h.accepts_iff (hfields f hf) (hamong given hgiven)).mpr haccepts

end

theorem normal_eq_null_iff {j : Json} : j.normal = .null ↔ j = .null := by
  cases j <;> simp [normal]

/-- Sorting members keeps the form of values that repeat no key. -/
theorem keepsForm_normal : KeepsForm normal Distinct where
  null := rfl
  bool _ := rfl
  number _ := ⟨_, rfl⟩
  string _ := rfl
  array := by
    intro items hj
    cases hj with
    | array hitems => exact ⟨by rw [normal, normalItems_eq_map], hitems⟩
  object := by
    intro members hj
    cases hj with
    | object nodup hmembers => exact ⟨_, rfl, normalMembers_perm nodup, hmembers⟩
  void _ := rfl

end AgentConsole.Json
