import AgentConsole.Json.Basic

/-!
# Values by key

A text lists the members of an object in some order and may repeat a key.  A value that is kept has
lost both: its members are sorted, and there is one for each key.  `Json.Ordered` says so of all
objects in a value, and `Json.normal` is the way there.

What is lost matters only where a key is repeated.  In a value without repeated keys
(`Json.Distinct`) the normal form of an object has the same members, so nothing that is read by key
can tell them apart.

* `Json.ordered_normal`, `Json.Ordered.normal_eq` : normal forms are ordered, and ordered values are
  their own normal forms.
* `Json.sound_normal` : a normal form nests no deeper.
* `Json.normalMembers_perm` : the members of a normal form, where no key is repeated.
-/

namespace AgentConsole.Json

/-- What holds of a value as soon as it holds of its parts holds of every value. -/
@[elab_as_elim]
theorem induction {P : Json → Prop} (null : P .null) (bool : ∀ b, P (.bool b))
    (number : ∀ n, P (.number n)) (string : ∀ s, P (.string s))
    (array : ∀ items, (∀ j ∈ items, P j) → P (.array items))
    (object : ∀ members, (∀ m ∈ members, P m.2) → P (.object members))
    (void : P .void) (j : Json) :
    P j :=
  @Json.rec P (fun items ↦ ∀ j ∈ items, P j) (fun members ↦ ∀ m ∈ members, P m.2)
    (fun m ↦ P m.2)
    null bool number string array object void
    (by simp) (fun j items hj hitems ↦ by simpa using ⟨hj, hitems⟩)
    (by simp) (fun m members hm hmembers ↦ by
      intro m' hm'
      rcases List.mem_cons.mp hm' with rfl | hm'
      · exact hm
      · exact hmembers m' hm')
    (fun _ _ h ↦ h) j

/-! ## Members by key -/

/-- Members with ascending keys. -/
def Ascending (members : Members) : Prop :=
  members.Pairwise fun a b ↦ a.1 < b.1

theorem mem_of_mem_addMember {key : String} {value : Json} {members : Members} {m : String × Json}
    (h : m ∈ addMember key value members) : m = (key, value) ∨ m ∈ members := by
  induction members with
  | nil => simpa [addMember] using h
  | cons m' members ih =>
    rw [addMember] at h
    split at h
    · simpa using h
    split at h
    · exact .inr h
    · rcases List.mem_cons.mp h with rfl | h
      · exact .inr (by simp)
      · exact (ih h).imp_right fun hm ↦ by simp [hm]

theorem ascending_addMember {members : Members} (h : Ascending members) (key : String)
    (value : Json) :
    Ascending (addMember key value members) := by
  induction members with
  | nil => exact List.pairwise_singleton ..
  | cons m members ih =>
    obtain ⟨hm, hmembers⟩ := List.pairwise_cons.mp h
    rw [addMember]
    split
    · next hlt =>
      refine List.pairwise_cons.mpr ⟨?_, h⟩
      intro m' hm'
      rcases List.mem_cons.mp hm' with rfl | hm'
      · exact hlt
      · exact String.lt_trans hlt (hm m' hm')
    split
    · exact h
    · next hlt hne =>
      have hkey : m.1 < key := Std.lt_of_le_of_ne (String.not_lt.mp hlt) fun he ↦ hne he.symm
      refine List.pairwise_cons.mpr ⟨?_, ih hmembers⟩
      intro m' hm'
      rcases mem_of_mem_addMember hm' with rfl | hm'
      · exact hkey
      · exact hm m' hm'

/-- A member with a smaller key than all others comes first. -/
theorem addMember_of_forall_lt {key : String} {members : Members} (h : ∀ m ∈ members, key < m.1)
    (value : Json) : addMember key value members = (key, value) :: members := by
  cases members with
  | nil => rfl
  | cons m members => rw [addMember, if_pos (h m (by simp))]

/-- A member with a new key is added and nothing else. -/
theorem addMember_perm {key : String} {members : Members} (h : key ∉ members.map Prod.fst)
    (value : Json) : (addMember key value members).Perm ((key, value) :: members) := by
  induction members with
  | nil => exact .refl _
  | cons m members ih =>
    obtain ⟨hm, hmembers⟩ : key ≠ m.1 ∧ key ∉ members.map Prod.fst := by simpa using h
    rw [addMember]
    split
    · exact .refl _
    · exact ((ih hmembers).cons m).trans (.swap ..)

/-! ## Normal forms -/

/-- Every object in the value has ascending keys. -/
inductive Ordered : Json → Prop where
  | null : Ordered .null
  | bool (b : Bool) : Ordered (.bool b)
  | number (n : Number) : Ordered (.number n)
  | string (s : String) : Ordered (.string s)
  | array {items : List Json} (h : ∀ j ∈ items, Ordered j) : Ordered (.array items)
  | object {members : Members} (ascending : Ascending members)
    (h : ∀ m ∈ members, Ordered m.2) :
    Ordered (.object members)
  | void : Ordered .void

theorem mem_of_mem_normalMembers {members : Members} {m : String × Json}
    (h : m ∈ normalMembers members) :
    ∃ m' ∈ members, m'.1 = m.1 ∧ normal m'.2 = m.2 := by
  induction members with
  | nil => cases h
  | cons m' members ih =>
    obtain ⟨key, j⟩ := m'
    rw [normalMembers] at h
    rcases mem_of_mem_addMember h with rfl | h
    · exact ⟨(key, j), by simp, rfl, rfl⟩
    · obtain ⟨m', hm', heq⟩ := ih h
      exact ⟨m', by simp [hm'], heq⟩

theorem ascending_normalMembers (members : Members) : Ascending (normalMembers members) := by
  induction members with
  | nil => exact .nil
  | cons m members ih => exact ascending_addMember ih _ _

/-- Normal forms are ordered. -/
theorem ordered_normal (j : Json) : Ordered (normal j) := by
  induction j using Json.induction with
  | null => exact .null
  | bool b => exact .bool b
  | number n => exact .number n
  | string s => exact .string s
  | void => exact .void
  | array items ih =>
    rw [normal, normalItems_eq_map]
    refine .array fun j hj ↦ ?_
    obtain ⟨j', hj', rfl⟩ := List.mem_map.mp hj
    exact ih j' hj'
  | object members ih =>
    rw [normal]
    refine .object (ascending_normalMembers members) fun m hm ↦ ?_
    obtain ⟨m', hm', -, heq⟩ := mem_of_mem_normalMembers hm
    rw [← heq]
    exact ih m' hm'

/-- An ordered value is its own normal form. -/
theorem Ordered.normal_eq {j : Json} (h : j.Ordered) : normal j = j := by
  induction j using Json.induction with
  | null | bool | number | string | void => rfl
  | array items ih =>
    cases h with
    | array h =>
      have hitems : items.map normal = items :=
        (List.map_congr_left fun j hj ↦ ih j hj (h j hj)).trans (List.map_id items)
      rw [normal, normalItems_eq_map, hitems]
  | object members ih =>
    cases h with
    | object ascending h =>
      have hmembers : normalMembers members = members := by
        induction members with
        | nil => rfl
        | cons m members ihmembers =>
          obtain ⟨hm, hrest⟩ := List.pairwise_cons.mp ascending
          have htail : normalMembers members = members :=
            ihmembers (fun m hm ↦ ih m (by simp [hm])) hrest fun m hm ↦ h m (by simp [hm])
          rw [normalMembers, htail, ih m (by simp) (h m (by simp)), addMember_of_forall_lt hm]
      rw [normal, hmembers]

theorem sound_array_iff {room : Nat} {items : List Json} :
    sound room (.array items) = true ↔
      room ≠ 0 ∧ ∀ j ∈ items, sound (room - 1) j = true := by
  rw [sound, soundItems_eq_all]
  simp

theorem sound_object_iff {room : Nat} {members : Members} :
    sound room (.object members) = true ↔
      room ≠ 0 ∧ ∀ m ∈ members, sound (room - 1) m.2 = true := by
  rw [sound, soundMembers_eq_all]
  simp

/-- A normal form is as sound as the value. -/
theorem sound_normal {room : Nat} {j : Json} (h : sound room j = true) :
    sound room (normal j) = true := by
  induction j using Json.induction generalizing room with
  | null | bool | number | string | void => exact h
  | array items ih =>
    obtain ⟨hroom, hitems⟩ := sound_array_iff.mp h
    rw [normal, normalItems_eq_map]
    refine sound_array_iff.mpr ⟨hroom, fun j hj ↦ ?_⟩
    obtain ⟨j', hj', rfl⟩ := List.mem_map.mp hj
    exact ih j' hj' (hitems j' hj')
  | object members ih =>
    obtain ⟨hroom, hmembers⟩ := sound_object_iff.mp h
    rw [normal]
    refine sound_object_iff.mpr ⟨hroom, fun m hm ↦ ?_⟩
    obtain ⟨m', hm', -, heq⟩ := mem_of_mem_normalMembers hm
    rw [← heq]
    exact ih m' hm' (hmembers m' hm')

/-! ## Values without repeated keys -/

/-- No object in the value repeats a key. -/
inductive Distinct : Json → Prop where
  | null : Distinct .null
  | bool (b : Bool) : Distinct (.bool b)
  | number (n : Number) : Distinct (.number n)
  | string (s : String) : Distinct (.string s)
  | array {items : List Json} (h : ∀ j ∈ items, Distinct j) : Distinct (.array items)
  | object {members : Members} (nodup : (members.map Prod.fst).Nodup)
    (h : ∀ m ∈ members, Distinct m.2) :
    Distinct (.object members)
  | void : Distinct .void

/-- Where no key is repeated, sorting changes the order only. -/
theorem normalMembers_perm {members : Members} (h : (members.map Prod.fst).Nodup) :
    (normalMembers members).Perm (members.map fun m ↦ (m.1, normal m.2)) := by
  induction members with
  | nil => exact .nil
  | cons m members ih =>
    obtain ⟨hm, hmembers⟩ := List.nodup_cons.mp h
    have hperm := ih hmembers
    have hkey : m.1 ∉ (normalMembers members).map Prod.fst := by
      rw [(hperm.map Prod.fst).mem_iff, List.map_map]
      exact hm
    exact (addMember_perm hkey _).trans (hperm.cons _)

end AgentConsole.Json
