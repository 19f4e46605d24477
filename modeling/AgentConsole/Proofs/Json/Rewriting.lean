import AgentConsole.Proofs.Json.Shape

/-!
# Values that are read, written and read again

Two things are asked of a format that is read by hand: that what is written is read as what it was
written for, and that nothing else is.  The second is needed where a text may be changed on its way.
Here that is the fate of floating-point numbers, whose numerals may be read as their neighbours:
then the value that is read at last is not the one that has been written, and the question is
whether the reader can tell.  A reader that loses nothing can, and this is put together field by
field (`Json.Faithful`).

A value that is to be written may itself have been read before.  It needs no more room than the
value that it was read from, and brings no new numbers (`Json.Rewrites`).

* `Json.reread?_eq_some_self_iff` : a value is read again as it was if its numbers are.
* `Json.keepsForm_again` : a value is read again in its old form if its numbers are read as numbers.
* `Json.Faithful.optional`, `Json.Faithful.list`, `Json.faithful_asValue` : what readers lose
  nothing of.
* `Json.rewrites_written` : records that are written from what has been read.
-/

namespace AgentConsole.Json

/-! ## Values that are read again as they were -/

theorem rereadItems?_eq_mapM (items : List Json) : rereadItems? items = items.mapM reread? := by
  induction items with
  | nil => rfl
  | cons j items ih =>
    rw [rereadItems?, List.mapM_cons, ih]
    cases reread? j with
    | none => rfl
    | some j' => cases items.mapM reread? <;> rfl

theorem rereadMembers?_eq_mapM (members : Members) :
    rereadMembers? members = members.mapM fun m ↦ (reread? m.2).map fun j ↦ (m.1, j) := by
  induction members with
  | nil => rfl
  | cons m members ih =>
    obtain ⟨key, j⟩ := m
    rw [rereadMembers?, List.mapM_cons, ih]
    cases reread? j with
    | none => rfl
    | some j' => cases members.mapM fun m ↦ (reread? m.2).map fun j ↦ (m.1, j) <;> rfl

/-- A value is read again as it was if all its numbers are. -/
theorem reread?_eq_some_self_iff {j : Json} {room : Nat} (h : sound room j = true) :
    reread? j = some j ↔ ∀ n, Occurs n j → reread? (.number n) = some (.number n) := by
  induction j using Json.induction generalizing room with
  | void => cases h
  | null | bool | string =>
    refine iff_of_true rfl ?_
    rintro n ⟨⟩
  | number n =>
    constructor
    · rintro hn n' ⟨⟩
      exact hn
    · exact fun hall ↦ hall n .number
  | array items ih =>
    obtain ⟨-, hitems⟩ := sound_array_iff.mp h
    have hreread :
        reread? (.array items) = some (.array items) ↔ ∀ j ∈ items, reread? j = some j := by
      rw [reread?, rereadItems?_eq_mapM, ← mapM_eq_some_self_iff, Option.map_eq_some_iff]
      simp
    rw [hreread]
    constructor
    · rintro hall n (_ | ⟨hmem, hn⟩)
      exact (ih _ hmem (hitems _ hmem)).mp (hall _ hmem) n hn
    · exact fun hall j hj ↦ (ih j hj (hitems j hj)).mpr fun n hn ↦ hall n (.array hj hn)
  | object members ih =>
    obtain ⟨-, hmembers⟩ := sound_object_iff.mp h
    have hreread : reread? (.object members) = some (.object members) ↔
        ∀ m ∈ members, reread? m.2 = some m.2 := by
      have hself : ∀ m : String × Json, (reread? m.2).map (fun j ↦ (m.1, j)) = some m ↔
          reread? m.2 = some m.2 := by
        rintro ⟨key, j⟩
        simp
      rw [reread?, rereadMembers?_eq_mapM, Option.map_eq_some_iff]
      simp only [object.injEq, exists_eq_right, mapM_eq_some_self_iff, hself]
    rw [hreread]
    constructor
    · rintro hall n (_ | _ | ⟨hmem, hn⟩)
      exact (ih _ hmem (hmembers _ hmem)).mp (hall _ hmem) n hn
    · exact fun hall m hm ↦ (ih m hm (hmembers m hm)).mpr fun n hn ↦ hall n (.object hm hn)

theorem ordered_of_word? {word : List Char} {j : Json} (h : word? word = some j) : j.Ordered := by
  have htokens := tokens_of_word? h
  cases j with
  | array items => cases items <;> cases htokens
  | object members => cases members <;> cases htokens
  | _ => constructor

/-- Reading a value again leaves the keys as they are. -/
theorem Ordered.reread {j j' : Json} (h : j.Ordered) (hj : reread? j = some j') : j'.Ordered := by
  induction j using Json.induction generalizing j' with
  | number n => exact ordered_of_word? hj
  | array items ih =>
    rw [reread?, rereadItems?_eq_mapM] at hj
    obtain ⟨items', hitems, rfl⟩ := Option.map_eq_some_iff.mp hj
    cases h with
    | array hordered =>
      refine .array fun i' hi' ↦ ?_
      obtain ⟨i, hi, hread⟩ := exists_of_mem_mapM hitems hi'
      exact ih i hi (hordered i hi) hread
  | object members ih =>
    rw [reread?, rereadMembers?_eq_mapM] at hj
    obtain ⟨members', hmembers, rfl⟩ := Option.map_eq_some_iff.mp hj
    cases h with
    | object ascending hordered =>
      refine .object ?_ fun m' hm' ↦ ?_
      · have hkeys : members'.map Prod.fst = members.map Prod.fst := by
          refine map_eq_of_mapM hmembers fun m m' hread ↦ ?_
          obtain ⟨_, -, rfl⟩ := Option.map_eq_some_iff.mp hread
          rfl
        have hascending : (members'.map Prod.fst).Pairwise (· < ·) :=
          hkeys ▸ List.pairwise_map.mpr ascending
        exact List.pairwise_map.mp hascending
      · obtain ⟨m, hm, hread⟩ := exists_of_mem_mapM hmembers hm'
        obtain ⟨i, hi, rfl⟩ := Option.map_eq_some_iff.mp hread
        exact ih m hm (hordered m hm) hi
  | _ =>
    cases hj
    constructor

/-! ## Values with other numbers -/

/-- What a value is read as when it has been written. -/
def again (j : Json) : Json :=
  (reread? j).getD .void

/-- The value is sound, and each number in it is read as a number, if not as the same one. -/
structure Renumbered (j : Json) : Prop where
  sound : ∃ room, j.sound room = true
  reread : ∀ n, Occurs n j → ∃ n', reread? (.number n) = some (.number n')

theorem Renumbered.part {v j : Json} (h : j.Renumbered) (hv : PartOf v j) : v.Renumbered := by
  obtain ⟨room, hsound⟩ := h.sound
  exact ⟨⟨room - 1, hv.sound hsound⟩, fun n hn ↦ h.reread n (hv.occurs hn)⟩

theorem again_eq {j w : Json} (h : reread? j = some w) : j.again = w := by
  rw [again, h, Option.getD_some]

theorem reread?_array {items : List Json} (h : ∀ j ∈ items, reread? j = some j.again) :
    reread? (.array items) = some (.array (items.map again)) := by
  rw [reread?, rereadItems?_eq_mapM, mapM_eq_some_map_iff.mpr h, Option.map_some]

theorem reread?_object {members : Members} (h : ∀ m ∈ members, reread? m.2 = some m.2.again) :
    reread? (.object members) = some (.object (members.map fun m ↦ (m.1, m.2.again))) := by
  have hmembers :
      ∀ m ∈ members, (reread? m.2).map (fun j ↦ (m.1, j)) = some (m.1, m.2.again) := by
    intro m hm
    rw [h m hm, Option.map_some]
  rw [reread?, rereadMembers?_eq_mapM, mapM_eq_some_map_iff.mpr hmembers, Option.map_some]

/-- A value is read again if its numbers are. -/
theorem reread?_eq_again {j : Json} (h : j.Renumbered) : reread? j = some j.again := by
  induction j using Json.induction with
  | number n =>
    obtain ⟨n', hn⟩ := h.reread n .number
    rw [hn, again_eq hn]
  | array items ih =>
    have hitems := reread?_array fun j hj ↦ ih j hj (h.part (.item hj))
    rw [hitems, again_eq hitems]
  | object members ih =>
    have hmembers := reread?_object fun m hm ↦ ih m hm (h.part (.member hm))
    rw [hmembers, again_eq hmembers]
  | _ => rfl

theorem again_array {items : List Json} (h : (array items).Renumbered) :
    (array items).again = .array (items.map again) :=
  again_eq (reread?_array fun _ hj ↦ reread?_eq_again (h.part (.item hj)))

theorem again_object {members : Members} (h : (object members).Renumbered) :
    (object members).again = .object (members.map fun m ↦ (m.1, m.2.again)) :=
  again_eq (reread?_object fun _ hm ↦ reread?_eq_again (h.part (.member hm)))

theorem keepsForm_again : KeepsForm again Renumbered where
  null := rfl
  bool _ := rfl
  number h := by
    obtain ⟨n', hn⟩ := h.reread _ .number
    exact ⟨n', again_eq hn⟩
  string _ := rfl
  array h := ⟨again_array h, fun _ hj ↦ h.part (.item hj)⟩
  object h := ⟨_, again_object h, .rfl, fun _ hm ↦ h.part (.member hm)⟩
  void h := by
    obtain ⟨room, hroom⟩ := h.sound
    cases hroom

theorem sound_again {j : Json} (h : j.Renumbered) {room : Nat} (hj : j.sound room = true) :
    j.again.sound room = true := by
  induction j using Json.induction generalizing room with
  | number n =>
    obtain ⟨n', hn⟩ := h.reread n .number
    rw [again_eq hn]
    rfl
  | array items ih =>
    obtain ⟨hroom, hitems⟩ := sound_array_iff.mp hj
    rw [again_array h, sound_array_iff, List.forall_mem_map]
    exact ⟨hroom, fun i hi ↦ ih i hi (h.part (.item hi)) (hitems i hi)⟩
  | object members ih =>
    obtain ⟨hroom, hmembers⟩ := sound_object_iff.mp hj
    rw [again_object h, sound_object_iff, List.forall_mem_map]
    exact ⟨hroom, fun m hm ↦ ih m hm (h.part (.member hm)) (hmembers m hm)⟩
  | void => cases hj
  | _ => rfl

theorem again_written {entries : List (String × Option Json)}
    (h : (object (written entries)).Renumbered) :
    (object (written entries)).again =
      .object (written (entries.map fun e ↦ (e.1, e.2.map again))) := by
  rw [again_object h]
  congr 1
  clear h
  induction entries with
  | nil => rfl
  | cons e entries ih =>
    rw [List.map_cons, written_cons, written_cons, List.map_append, ih]
    cases e.2 <;> rfl

/-- A value whose numbers are read as they were is read as it was. -/
theorem again_eq_self {j : Json} (h : j.Renumbered)
    (hfloat : ∀ x, Occurs (.float x) j →
      parse? (text (.number (.float x))) = some (.number (.float x)))
    (hint : ∀ i, Occurs (.int i) j → Bounded (.int i)) : j.again = j := by
  obtain ⟨room, hsound⟩ := h.sound
  refine again_eq ((reread?_eq_some_self_iff hsound).mpr fun n hn ↦ ?_)
  cases n with
  | float x =>
    rw [← parse?_text]
    exact hfloat x hn
  | int i => exact reread?_of_bounded (hint i hn)

/-! ## Readers that lose nothing -/

section

variable {α β : Type}

/-- Something is read from what is written for it; and where reading the writing again gives a
writing of the same, it gives the writing itself. -/
structure Faithful (again : β → Option β) (read : β → Option α) (a : α)
    (w : β) : Prop where
  read_eq : read w = some a
  eq_of_again : ∀ w', again w = some w' → read w' = some a → w' = w

theorem faithful_of_again {again : β → Option β} {read : β → Option α} {a : α} {w : β}
    (hagain : again w = some w) (hread : read w = some a) : Faithful again read a w := by
  refine ⟨hread, fun w' hw' _ ↦ ?_⟩
  rw [hagain] at hw'
  exact (Option.some.inj hw').symm

/-- A text is a text whatever is made of it. -/
theorem faithful_text (o : Option String) :
    Faithful rereadSlot? (optional asString) o (o.map .string) := by
  refine faithful_of_again ?_ ?_
  · cases o <;> rfl
  · cases o <;> rfl

/-- A floating-point number can be told from any other, even if its numeral is read as another
one. -/
theorem faithful_asFloat (x : Float) : Faithful reread? asFloat x (.number (.float x)) := by
  refine ⟨rfl, fun w hw hread ↦ ?_⟩
  cases w with
  | number n =>
    obtain ⟨y, rfl⟩ := exists_float_of_reread? hw
    cases hread
    rfl
  | _ => cases hread

/-- Values that are kept as they are have to be normal forms already. -/
theorem faithful_asValue {room : Nat} {v : Json} (hordered : v.Ordered)
    (hsound : sound room v = true) :
    Faithful reread? (asValue room) v v := by
  refine ⟨?_, fun w hw hread ↦ ?_⟩
  · rw [asValue, if_pos hsound, hordered.normal_eq]
  · rw [asValue] at hread
    split at hread
    · rw [(hordered.reread hw).normal_eq] at hread
      exact Option.some.inj hread
    · cases hread

variable {read : Json → Option α} {write : α → Json}

theorem optional_eq_some_some_iff {slot : Option Json} {a : α} :
    optional read slot = some (some a) ↔ ∃ j ∈ slot, j ≠ .null ∧ read j = some a := by
  cases slot with
  | none => simp [optional]
  | some j => cases j <;> simp [optional]

theorem eq_of_again_optional {o : Option α}
    (h : ∀ a ∈ o, ∀ w, reread? (write a) = some w → read w = some a → w = write a)
    {slot : Option Json}
    (hslot : rereadSlot? (o.map write) = some slot) (hread : optional read slot = some o) :
    slot = o.map write := by
  cases o with
  | none => exact (Option.some.inj hslot).symm
  | some a =>
    obtain ⟨w, hw, rfl⟩ := Option.map_eq_some_iff.mp hslot
    obtain ⟨w', hw', -, hreadw⟩ := optional_eq_some_some_iff.mp hread
    cases Option.mem_some.mp hw'
    rw [Option.map_some, h a rfl w hw hreadw]

theorem optional_map_eq_some_iff {o : Option α} (hnull : ∀ a ∈ o, write a ≠ .null) :
    optional read (o.map write) = some o ↔ ∀ a ∈ o, read (write a) = some a := by
  cases o with
  | none => simp [optional]
  | some a =>
    rw [optional_eq_some_some_iff]
    simpa using fun _ ↦ hnull a rfl

theorem Faithful.optional {o : Option α} (h : ∀ a ∈ o, Faithful reread? read a (write a))
    (hnull : ∀ a, write a ≠ .null) : Faithful rereadSlot? (optional read) o (o.map write) := by
  refine ⟨?_, fun slot ↦ eq_of_again_optional fun a ha ↦ (h a ha).eq_of_again⟩
  exact (optional_map_eq_some_iff fun a _ ↦ hnull a).mpr fun a ha ↦ (h a ha).read_eq

/-- A field that is always written. -/
theorem Faithful.given {a : α} {w : Json} (h : Faithful reread? read a w)
    {read' : Option Json → Option α} (hread : ∀ j, read' (some j) = read j) :
    Faithful rereadSlot? read' a (some w) := by
  refine ⟨(hread _).trans h.read_eq, fun slot hslot hread' ↦ ?_⟩
  obtain ⟨w', hw', rfl⟩ := Option.map_eq_some_iff.mp hslot
  rw [h.eq_of_again w' hw' ((hread w').symm.trans hread')]

theorem Faithful.list {l : List α} (h : ∀ a ∈ l, Faithful reread? read a (write a)) :
    Faithful reread? (asList read) l (.array (l.map write)) := by
  constructor
  · rw [asList, mapM_eq_some_iff, List.forall₂_map_left_iff, List.forall₂_same]
    exact fun a ha ↦ (h a ha).read_eq
  · intro w hw hread
    rw [reread?, rereadItems?_eq_mapM] at hw
    obtain ⟨items, hitems, rfl⟩ := Option.map_eq_some_iff.mp hw
    rw [mapM_eq_some_iff, List.forall₂_map_left_iff] at hitems
    rw [asList, mapM_eq_some_iff] at hread
    clear hw
    congr 1
    induction hitems with
    | nil => rfl
    | @cons a i l items hi hitems ih =>
      obtain ⟨ha, hl⟩ := List.forall_mem_cons.mp h
      cases hread with
      | cons hreada hread => rw [List.map_cons, ha.eq_of_again i hi hreada, ih hl hread]

end

/-! ## Writing what has been read -/

/-- A value that is written for another one: it needs no more room, and its integers are from
there. -/
structure Rewrites (room : Nat) (j w : Json) : Prop where
  sound : w.sound room = true
  occurs : ∀ i, Occurs (.int i) w → Occurs (.int i) j

/-- What is written for a field, which may be nothing, and may stand where nothing was given. -/
def RewritesSlot (room : Nat) (slot w : Option Json) : Prop :=
  ∀ v ∈ w, v.sound room = true ∧ ∀ i, Occurs (.int i) v →
    ∃ j ∈ slot, Occurs (.int i) j

section

variable {α : Type} {room : Nat} {read : Json → Option α} {write : α → Json}
  {slot : Option Json}

/-- Text is written for anything. -/
theorem rewritesSlot_text (room : Nat) (slot : Option Json) (o : Option String) :
    RewritesSlot room slot (o.map .string) := by
  rintro _ hv
  obtain ⟨s, -, rfl⟩ := Option.map_eq_some_iff.mp hv
  exact ⟨rfl, nofun⟩

theorem rewrites_asValue {j v : Json} (h : asValue room j = some v) : Rewrites room j v := by
  rw [asValue] at h
  split at h
  · next hj =>
    cases h
    exact ⟨sound_normal hj, fun _ ↦ occurs_of_occurs_normal⟩
  · cases h

theorem ordered_of_asValue {j v : Json} (h : asValue room j = some v) : v.Ordered := by
  rw [asValue] at h
  split at h
  · cases h
    exact ordered_normal j
  · cases h

theorem rewritesSlot_optional {o : Option α} (h : optional read slot = some o)
    (hread : ∀ j ∈ slot, ∀ a, read j = some a → Rewrites room j (write a)) :
    RewritesSlot room slot (o.map write) := by
  rintro _ hv
  obtain ⟨a, rfl, rfl⟩ := Option.map_eq_some_iff.mp hv
  obtain ⟨j, hj, -, ha⟩ := optional_eq_some_some_iff.mp h
  obtain ⟨hsound, hoccurs⟩ := hread j hj a ha
  exact ⟨hsound, fun i hi ↦ ⟨j, hj, hoccurs i hi⟩⟩

/-- A field with a default that is written, too. -/
theorem rewritesSlot_defaulted {default a : α} {w : Json}
    (h : defaulted default read slot = some a)
    (hdefault : a = default → w.sound room = true ∧ ∀ i, ¬ Occurs (.int i) w)
    (hread : ∀ j ∈ slot, read j = some a → Rewrites room j w) :
    RewritesSlot room slot (some w) := by
  intro v hv
  cases Option.mem_some.mp hv
  cases slot with
  | none =>
    cases h
    obtain ⟨hsound, hoccurs⟩ := hdefault rfl
    exact ⟨hsound, fun i hi ↦ absurd hi (hoccurs i)⟩
  | some j =>
    obtain ⟨hsound, hoccurs⟩ := hread j rfl h
    exact ⟨hsound, fun i hi ↦ ⟨j, rfl, hoccurs i hi⟩⟩

theorem rewrites_list {j : Json} {l : List α} (h : asList read j = some l)
    (hj : j.sound room = true)
    (hread : ∀ i, PartOf i j → ∀ a, read i = some a → Rewrites (room - 1) i (write a)) :
    Rewrites room j (.array (l.map write)) := by
  cases j with
  | array items =>
    obtain ⟨hroom, -⟩ := sound_array_iff.mp hj
    have hitem : ∀ w ∈ l.map write, ∃ i ∈ items, Rewrites (room - 1) i w := by
      intro w hw
      obtain ⟨a, ha, rfl⟩ := List.mem_map.mp hw
      obtain ⟨i, hi, hia⟩ := exists_of_mem_mapM h ha
      exact ⟨i, hi, hread i (.item hi) a hia⟩
    constructor
    · refine sound_array_iff.mpr ⟨hroom, fun w hw ↦ ?_⟩
      obtain ⟨i, -, hi⟩ := hitem w hw
      exact hi.sound
    · rintro n (_ | ⟨hw, hn⟩)
      obtain ⟨i, hi, hrewrites⟩ := hitem _ hw
      exact .array hi (hrewrites.occurs n hn)
  | _ => cases h

/-- What holds of all that is read as an item holds of the items of a list; without a list there are
none. -/
theorem forall_of_defaulted_list {P : α → Prop} {l : List α}
    (h : defaulted [] (asList read) slot = some l) (hread : ∀ i a, read i = some a → P a) :
    ∀ a ∈ l, P a := by
  intro a ha
  cases slot with
  | none =>
    cases h
    cases ha
  | some j =>
    cases j with
    | array items =>
      obtain ⟨i, -, hi⟩ := exists_of_mem_mapM h ha
      exact hread i a hi
    | _ => cases h

theorem ne_zero_of_slots? {fields : List (List String)} {j : Json} {slots : List (Option Json)}
    (hslots : slots? fields j = some slots) (hj : j.sound room = true) : room ≠ 0 := by
  cases j with
  | array items => exact (sound_array_iff.mp hj).1
  | object members => exact (sound_object_iff.mp hj).1
  | _ => cases hslots

/-- A record that is written from the fields of a value. -/
theorem rewrites_written {fields : List (List String)}
    {entries : List (String × Option Json)} {j : Json} {slots : List (Option Json)}
    (hroom : room ≠ 0) (hslots : slots? fields j = some slots)
    (h : List.Forall₂ (fun slot e ↦ RewritesSlot (room - 1) slot e.2) slots entries) :
    Rewrites room j (.object (written entries)) := by
  constructor
  · refine sound_written_iff.mpr ⟨hroom, fun e he v hv ↦ ?_⟩
    obtain ⟨slot, -, hrewrites⟩ := exists_of_forall₂ h he
    exact (hrewrites v hv).1
  · intro i hi
    obtain ⟨e, he, v, hv, hi⟩ := exists_of_occurs_written hi
    obtain ⟨slot, hmem, hrewrites⟩ := exists_of_forall₂ h he
    obtain ⟨v', rfl, hv'⟩ := (hrewrites v hv).2 i hi
    exact (partOf_of_mem_slots? hslots hmem).occurs hv'

end

end AgentConsole.Json
