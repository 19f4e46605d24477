import AgentConsole.Json.Fields
import AgentConsole.Proofs.Json.Number

/-!
# Records as they are written and read

A record is written with one member for each field that has a value, under the first spelling of the
field.  Reading such an object gives every field its value again, whatever the record is
(`Json.slots?_written`).  What a printed record is read as differs from it in the values of its
members only (`Json.reread?_written`).

In the other direction little is known of a value that is read as a record: it may give the fields
in any order, repeat other members or be an array.  But whatever a field is given stands directly in
the value (`Json.partOf_of_mem_slots?`), and that is enough to know how deep it nests and which
numbers stand in it.
-/

namespace AgentConsole

namespace Json

/-! ## Written records -/

/-- The members of a record, given by its keys and values. -/
def written (entries : List (String × Option Json)) : Members :=
  entries.flatMap fun e ↦ member e.1 e.2

@[simp] theorem written_nil : written [] = [] := rfl

@[simp] theorem written_cons (key : String) (value : Option Json)
    (entries : List (String × Option Json)) :
    written ((key, value) :: entries) = member key value ++ written entries := rfl

theorem mem_written_iff {entries : List (String × Option Json)} {key : String} {j : Json} :
    (key, j) ∈ written entries ↔ (key, some j) ∈ entries := by
  rw [written, List.mem_flatMap]
  constructor
  · rintro ⟨⟨key', value⟩, he, hm⟩
    cases value with
    | none => cases hm
    | some j' =>
      cases List.mem_singleton.mp hm
      exact he
  · exact fun he ↦ ⟨_, he, List.mem_singleton_self _⟩

theorem sound_written_iff {room : Nat} {entries : List (String × Option Json)} :
    sound room (.object (written entries)) = true ↔
      room ≠ 0 ∧ ∀ e ∈ entries, ∀ j ∈ e.2, sound (room - 1) j = true := by
  rw [sound_object_iff]
  refine and_congr_right fun _ ↦ ⟨?_, ?_⟩
  · rintro h ⟨key, value⟩ he j rfl
    exact h (key, j) (mem_written_iff.mpr he)
  · rintro h ⟨key, j⟩ hm
    exact h (key, some j) (mem_written_iff.mp hm) j rfl

theorem exists_of_occurs_written {n : Number} {entries : List (String × Option Json)}
    (h : Occurs n (.object (written entries))) : ∃ e ∈ entries, ∃ j ∈ e.2, Occurs n j := by
  cases h with
  | @object _ m mem h => exact ⟨(m.1, some m.2), mem_written_iff.mp mem, m.2, rfl, h⟩

theorem filter_written_eq_nil {entries : List (String × Option Json)} {spellings : List String}
    (h : ∀ e ∈ entries, e.1 ∉ spellings) :
    (written entries).filter (spellings.contains ·.1) = [] := by
  induction entries with
  | nil => rfl
  | cons e entries ih =>
    obtain ⟨key, value⟩ := e
    obtain ⟨hkey, hentries⟩ := List.forall_mem_cons.mp h
    rw [written_cons, List.filter_append, ih hentries]
    cases value with
    | none => rfl
    | some j => simpa [member] using hkey

/-- The only entry whose key is a spelling of a field gives the field its value. -/
theorem slot?_written {before after : List (String × Option Json)} {key : String}
    {spellings : List String} (hkey : key ∈ spellings)
    (hbefore : ∀ e ∈ before, e.1 ∉ spellings) (hafter : ∀ e ∈ after, e.1 ∉ spellings)
    (value : Option Json) :
    slot? (written (before ++ (key, value) :: after)) spellings = some value := by
  have hwritten : written (before ++ (key, value) :: after) =
      written before ++ (member key value ++ written after) := by
    simp [written]
  rw [slot?, hwritten, List.filter_append, List.filter_append, filter_written_eq_nil hbefore,
    filter_written_eq_nil hafter]
  cases value with
  | none => rfl
  | some j => simp [member, hkey]

/-- A written record gives every field its value. -/
theorem slots?_written {fields : List (List String)} {entries : List (String × Option Json)}
    (hkeys : fields.map List.head? = entries.map (some ·.1)) (hnodup : fields.flatten.Nodup) :
    slots? fields (.object (written entries)) = some (entries.map Prod.snd) := by
  -- the entries in front belong to fields that have been taken already
  have hslots :
      ∀ front : List (String × Option Json), (∀ e ∈ front, e.1 ∉ fields.flatten) →
      fields.mapM (slot? (written (front ++ entries))) = some (entries.map Prod.snd) := by
    induction fields generalizing entries with
    | nil =>
      intro front _
      cases entries with
      | nil => rfl
      | cons e entries => cases hkeys
    | cons spellings fields ih =>
      intro front hfront
      cases entries with
      | nil => cases hkeys
      | cons e entries =>
        obtain ⟨key, value⟩ := e
        obtain ⟨hhead, hrest⟩ := List.cons.inj hkeys
        have hkey : key ∈ spellings := List.mem_of_mem_head? hhead
        rw [List.flatten_cons, List.nodup_append] at hnodup
        obtain ⟨-, hnodup, hdisjoint⟩ := hnodup
        have hentries : ∀ e ∈ entries, e.1 ∈ fields.flatten := by
          intro e he
          have hmem : some e.1 ∈ fields.map List.head? := by
            rw [hrest]
            exact List.mem_map_of_mem he
          obtain ⟨sp, hsp, hhead⟩ := List.mem_map.mp hmem
          exact List.mem_flatten.mpr ⟨sp, hsp, List.mem_of_mem_head? hhead⟩
        have hslot : slot? (written (front ++ (key, value) :: entries)) spellings = some value := by
          refine slot?_written hkey ?_ ?_ value
          · exact fun e he hmem ↦ hfront e he (by simp [hmem])
          · exact fun e he hmem ↦ hdisjoint _ hmem _ (hentries e he) rfl
        have htail := ih hrest hnodup (front ++ [(key, value)]) (by
          intro e he
          rcases List.mem_append.mp he with he | he
          · exact fun hmem ↦ hfront e he (by
              rw [List.flatten_cons]
              exact List.mem_append_right _ hmem)
          · rw [List.mem_singleton.mp he]
            exact fun hmem ↦ hdisjoint _ hkey _ hmem rfl)
        rw [List.append_assoc, List.singleton_append] at htail
        rw [List.mapM_cons, hslot, htail]
        rfl
  exact hslots [] nofun

/-- What the value of a field is read as when it has been written; a missing one stays away. -/
def rereadSlot? : Option Json → Option (Option Json)
  | none => some none
  | some j => (reread? j).map some

/-- What a member of a record is read as. -/
def rereadField? (e : String × Option Json) : Option (String × Option Json) :=
  (rereadSlot? e.2).map fun value ↦ (e.1, value)

theorem rereadMembers?_append (front back : Members) :
    rereadMembers? (front ++ back) =
      (rereadMembers? front).bind fun f ↦ (rereadMembers? back).map (f ++ ·) := by
  induction front with
  | nil => simp [rereadMembers?]
  | cons m front ih =>
    obtain ⟨key, j⟩ := m
    rw [List.cons_append, rereadMembers?, rereadMembers?, ih]
    cases reread? j with
    | none => rfl
    | some j' => cases rereadMembers? front <;> simp [Function.comp_def]

/-- A printed record is read as a record with the same keys. -/
theorem reread?_written (entries : List (String × Option Json)) :
    reread? (.object (written entries)) =
      (entries.mapM rereadField?).map fun entries ↦ .object (written entries) := by
  have hmembers : rereadMembers? (written entries) = (entries.mapM rereadField?).map written := by
    induction entries with
    | nil => rfl
    | cons e entries ih =>
      obtain ⟨key, value⟩ := e
      rw [written_cons, rereadMembers?_append, ih, List.mapM_cons]
      cases value with
      | none =>
        cases entries.mapM rereadField? <;> simp [member, rereadMembers?, rereadField?, rereadSlot?]
      | some j =>
        cases hj : reread? j with
        | none => simp [member, rereadMembers?, rereadField?, rereadSlot?, hj]
        | some j' =>
          cases entries.mapM rereadField? <;> simp [member, rereadMembers?, rereadField?,
            rereadSlot?, hj]
  rw [reread?, hmembers, Option.map_map]
  rfl

theorem eq_of_rereadField? {entries entries' : List (String × Option Json)}
    (hentries : entries.mapM rereadField? = some entries')
    (h : List.Forall₂ (fun e slot ↦ rereadSlot? e.2 = some slot → slot = e.2) entries
      (entries'.map Prod.snd)) : entries' = entries := by
  have hall := mapM_eq_some_iff.mp hentries
  clear hentries
  induction hall with
  | nil => rfl
  | @cons e _ _ _ he _ ih =>
    obtain ⟨value, hvalue, rfl⟩ := Option.map_eq_some_iff.mp he
    cases h with
    | cons hslot h =>
      have hvalue' : value = e.2 := hslot hvalue
      rw [ih h, hvalue']

/-- If each field of a record can only have been given what was written, then what has been read is
what was written. -/
theorem eq_written_of_reread? {fields : List (List String)}
    {entries : List (String × Option Json)} {j : Json} {slots : List (Option Json)}
    (hkeys : fields.map List.head? = entries.map (some ·.1))
    (hnodup : fields.flatten.Nodup) (hj : reread? (.object (written entries)) = some j)
    (hslots : slots? fields j = some slots)
    (h : List.Forall₂ (fun e slot ↦ rereadSlot? e.2 = some slot → slot = e.2) entries slots) :
    j = .object (written entries) := by
  rw [reread?_written] at hj
  obtain ⟨entries', hentries, rfl⟩ := Option.map_eq_some_iff.mp hj
  have hkeys' : entries'.map (some ·.1) = entries.map (some ·.1) := by
    refine map_eq_of_mapM hentries fun e e' he ↦ ?_
    obtain ⟨_, -, rfl⟩ := Option.map_eq_some_iff.mp he
    rfl
  rw [slots?_written (hkeys.trans hkeys'.symm) hnodup] at hslots
  cases hslots
  rw [eq_of_rereadField? hentries h]

/-! ## Values that are read as records -/

/-- A value stands directly in another one. -/
inductive PartOf (v : Json) : Json → Prop where
  | item {items : List Json} (h : v ∈ items) : PartOf v (.array items)
  | member {members : Members} {key : String} (h : (key, v) ∈ members) :
    PartOf v (.object members)

namespace PartOf

variable {v j : Json}

theorem occurs (h : PartOf v j) {n : Number} (hn : Occurs n v) : Occurs n j := by
  cases h with
  | item h => exact .array h hn
  | member h => exact .object h hn

theorem sound (h : PartOf v j) {room : Nat} (hj : Json.sound room j = true) :
    Json.sound (room - 1) v = true := by
  cases h with
  | item h => exact (sound_array_iff.mp hj).2 _ h
  | member h => exact (sound_object_iff.mp hj).2 _ h

theorem distinct (h : PartOf v j) (hj : Distinct j) : Distinct v := by
  cases h with
  | item h =>
    cases hj with
    | array hall => exact hall _ h
  | member h =>
    cases hj with
    | object _ hall => exact hall _ h

end PartOf

theorem partOf_written {entries : List (String × Option Json)} {e : String × Option Json}
    (he : e ∈ entries) {v : Json} (hv : v ∈ e.2) : PartOf v (.object (written entries)) := by
  obtain ⟨key, value⟩ := e
  cases Option.mem_def.mp hv
  exact .member (mem_written_iff.mpr he)

theorem mem_of_slot? {members : Members} {spellings : List String} {v : Json}
    (h : slot? members spellings = some (some v)) : ∃ key, (key, v) ∈ members := by
  unfold slot? at h
  split at h
  · cases h
  · next m hm =>
    cases h
    have hmem : m ∈ members.filter fun m ↦ spellings.contains m.1 := by
      rw [hm]
      exact List.mem_singleton_self m
    exact ⟨m.1, (List.mem_filter.mp hmem).1⟩
  · cases h

/-- What a field is given stands directly in the value. -/
theorem partOf_of_mem_slots? {fields : List (List String)} {j v : Json} {slots : List (Option Json)}
    (h : slots? fields j = some slots) (hv : some v ∈ slots) : PartOf v j := by
  cases j with
  | array items =>
    rw [slots?] at h
    split at h
    · cases h
      rcases List.mem_append.mp hv with hv | hv
      · obtain ⟨v', hv', he⟩ := List.mem_map.mp hv
        cases he
        exact .item hv'
      · cases List.eq_of_mem_replicate hv
    · cases h
  | object members =>
    rw [slots?] at h
    obtain ⟨spellings, -, hslot⟩ := exists_of_mem_mapM h hv
    obtain ⟨key, hmem⟩ := mem_of_slot? hslot
    exact .member hmem
  | _ => cases h

theorem sound_of_slots? {fields : List (List String)} {j : Json}
    {slots : List (Option Json)} {room : Nat} (h : slots? fields j = some slots)
    (hj : sound room j = true) (slot : Option Json)
    (hslot : slot ∈ slots) : ∀ v ∈ slot, sound (room - 1) v = true := by
  rintro v rfl
  exact (partOf_of_mem_slots? h hslot).sound hj

end Json

end AgentConsole
