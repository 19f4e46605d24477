import AgentConsole.Json.Fields
import AgentConsole.Proofs.Json.Insertion
import Mathlib.Data.List.Perm.Basic

/-!
# Objects and their members

The text of an object is made of the texts of its members, each of them a key and a value, with
commas between them.  Whatever the members are, such a text is read as the object of what they stand
for (`Json.isObject_objectText`), in their order.

A record does not depend on all of this.  It takes a value for each of its fields from the members
with the spellings of the field, if there is at most one of them, and so it is the same for all
objects that give its fields the same values.

* `Json.slots?_append_of_unknown`, `Json.slots?_respell` : objects that give the same values.
* `Json.slots?_of_repeated` : an object that gives a field twice.
* `Json.slots?_ofMembers_perm`, `Json.slots?_ofMembers_respell`, `Json.slots?_ofMembers_repeated` :
  the same for members as they are read, where a key that is no text spoils the object, wherever it
  stands.
-/

namespace AgentConsole.Json

/-! ## The texts of objects -/

/-- The text of an object with these members, in this order.  A key that is no text is none. -/
def IsObject (members : List (Option String × Json)) (s : String) : Prop :=
  parse? s = some (ofMembers members)

/-- The texts of a key and of a value.  Blanks around them do not matter, and the key may be written
with escapes. -/
structure IsMember (part : String × String) (m : Option String × Json) : Prop where
  key : tokens? part.1.toList = some [.string m.1]
  value : parse? part.2 = some m.2

/-- The text of a member. -/
def memberText (part : String × String) : String := part.1 ++ ":" ++ part.2

/-- The text of an object, made of the texts of its keys and values. -/
def objectText (parts : List (String × String)) : String :=
  "\x7b" ++ ",".intercalate (parts.map memberText) ++ "\x7d"

/-- What can be read by itself is read behind other tokens, too. -/
theorem tokensFrom_of_tokens? {cs rest : List Char} {ts : List Token} (h : tokens? cs = some ts)
    (hrest : EndsWord rest) (acc : List Token) :
    tokensFrom .between acc (cs ++ rest) = tokensFrom .between (ts.reverse ++ acc) rest := by
  have hts : tokensFrom .between ([] ++ acc) cs = some (acc.reverse ++ ts) := by
    rw [tokensFrom_eq_map, ← tokens?, h, Option.map_some]
  rw [List.nil_append] at hts
  rw [tokensFrom_append hts hrest, List.reverse_append, List.reverse_reverse]

theorem tokensFrom_memberText {part : String × String} {m : Option String × Json}
    {ts : List Token} (h : IsMember part m) (hts : tokens? part.2.toList = some ts)
    (acc : List Token) {rest : List Char}
    (hrest : EndsWord rest) :
    tokensFrom .between acc ((memberText part).toList ++ rest) =
      tokensFrom .between ((.string m.1 :: .colon :: ts).reverse ++ acc) rest := by
  have htext :
      (memberText part).toList ++ rest = part.1.toList ++ ':' :: (part.2.toList ++ rest) := by
    simp [memberText]
  rw [htext, tokensFrom_of_tokens? h.key (endsWord_cons (by decide) _)]
  change tokensFrom .between (.colon :: .string m.1 :: acc) (part.2.toList ++ rest) = _
  rw [tokensFrom_of_tokens? hts hrest]
  simp

/-- The members of an object and its end are read as tokens, and these as the members. -/
theorem exists_tokens_members {part : String × String} {parts : List (String × String)}
    {m : Option String × Json} {members : List (Option String × Json)}
    (h : List.Forall₂ IsMember (part :: parts) (m :: members)) :
    ∃ ts, (∀ acc, tokensFrom .between acc
        ((",".intercalate ((part :: parts).map memberText)).toList ++ ['}']) =
          some (acc.reverse ++ .string m.1 :: .colon :: ts)) ∧
      ∀ before, parseFrom (.value [.object before m.1]) ts =
        some (ofMembers (before.reverse ++ m :: members)) := by
  induction parts generalizing part m members with
  | nil =>
    cases h with
    | cons hm hrest =>
      cases hrest
      obtain ⟨ts, hts, hparse⟩ := Option.bind_eq_some_iff.mp hm.value
      refine ⟨ts ++ [.closeObject], fun acc ↦ ?_, fun before ↦ ?_⟩
      · rw [List.map_singleton, String.intercalate_singleton,
          tokensFrom_memberText hm hts acc (endsWord_cons (by decide) [])]
        change some (.closeObject :: ((.string m.1 :: .colon :: ts).reverse ++ acc)).reverse = _
        simp
      · have honto := parseFrom_onto hparse [.object before m.1] [.closeObject]
        rw [← List.reverse_cons]
        exact honto
  | cons next parts ih =>
    cases h with
    | cons hm hrest =>
      cases members with
      | nil => cases hrest
      | cons m' members =>
        obtain ⟨ts, hts, hparse⟩ := Option.bind_eq_some_iff.mp hm.value
        obtain ⟨ts', htokens, hmembers⟩ := ih hrest
        refine ⟨ts ++ .comma :: .string m'.1 :: .colon :: ts', fun acc ↦ ?_,
          fun before ↦ ?_⟩
        · have htext : (",".intercalate ((part :: next :: parts).map memberText)).toList ++ ['}'] =
              (memberText part).toList ++
                ',' :: ((",".intercalate ((next :: parts).map memberText)).toList ++ ['}']) := by
            rw [List.map_cons, List.map_cons, String.intercalate_cons_cons, ← List.map_cons]
            simp
          rw [htext, tokensFrom_memberText hm hts acc (endsWord_cons (by decide) _)]
          change tokensFrom .between (.comma :: ((.string m.1 :: .colon :: ts).reverse ++ acc)) _ =
            _
          rw [htokens]
          simp
        · have honto := parseFrom_onto hparse [.object before m.1]
            (.comma :: .string m'.1 :: .colon :: ts')
          have hrest := hmembers (m :: before)
          rw [List.reverse_cons, List.append_assoc, List.singleton_append] at hrest
          rw [← hrest]
          exact honto

/-- Texts of members make the text of an object. -/
theorem isObject_objectText {parts : List (String × String)}
    {members : List (Option String × Json)} (h : List.Forall₂ IsMember parts members) :
    IsObject members (objectText parts) := by
  cases h with
  | nil => rfl
  | @cons part m parts members hm hrest =>
    obtain ⟨ts, htokens, hparse⟩ := exists_tokens_members (.cons hm hrest)
    have htext : (objectText (part :: parts)).toList =
        '{' :: ((",".intercalate ((part :: parts).map memberText)).toList ++ ['}']) := by
      simp [objectText]
    rw [IsObject, parse?, read?, tokens?, htext]
    change (tokensFrom .between [.openObject] _).bind _ = _
    rw [htokens]
    exact hparse []

/-! ## Keys -/

theorem ofMembers_of_none_mem {members : List (Option String × Json)} {v : Json}
    (h : (none, v) ∈ members) : ofMembers members = .void := by
  unfold ofMembers
  split
  · rename_i named hnamed
    have hsome := isSome_mapM_iff.mp (Option.isSome_iff_exists.mpr ⟨named, hnamed⟩) _ h
    cases hsome
  · rfl

/-- Either all keys are texts, or one is none. -/
theorem eq_map_or_none_mem (members : List (Option String × Json)) :
    (∃ named : Members, members = named.map fun m ↦ (some m.1, m.2)) ∨
      ∃ v, (none, v) ∈ members := by
  induction members with
  | nil => exact .inl ⟨[], rfl⟩
  | cons m members ih =>
    obtain ⟨key, v⟩ := m
    cases key with
    | none => exact .inr ⟨v, List.mem_cons_self⟩
    | some key =>
      rcases ih with ⟨named, rfl⟩ | ⟨w, hw⟩
      · exact .inl ⟨(key, v) :: named, rfl⟩
      · exact .inr ⟨w, List.mem_cons_of_mem _ hw⟩

/-- A member among others whose keys are texts. -/
theorem ofMembers_map_insert (front back : Members) (key : String) (v : Json) :
    ofMembers ((front.map fun m ↦ (some m.1, m.2)) ++
      (some key, v) :: (back.map fun m ↦ (some m.1, m.2))) =
      .object (front ++ (key, v) :: back) := by
  rw [← ofMembers_map, List.map_append, List.map_cons]

/-- Further members with texts for keys. -/
theorem eq_map_of_unknown {unknown : List (Option String × Json)} {fields : List (List String)}
    (h : ∀ m ∈ unknown, ∃ key, m.1 = some key ∧ key ∉ fields.flatten) :
    ∃ named : Members, unknown = (named.map fun m ↦ (some m.1, m.2)) ∧
      ∀ m ∈ named, m.1 ∉ fields.flatten := by
  rcases eq_map_or_none_mem unknown with ⟨named, rfl⟩ | ⟨v, hv⟩
  · refine ⟨named, rfl, fun m hm ↦ ?_⟩
    obtain ⟨key, hkey, hknown⟩ := h _ (List.mem_map_of_mem hm)
    cases hkey
    exact hknown
  · obtain ⟨key, hkey, -⟩ := h _ hv
    cases hkey

/-! ## The values of the fields -/

theorem slots?_congr {fields : List (List String)} {l₁ l₂ : Members}
    (h : ∀ spellings ∈ fields, slot? l₁ spellings = slot? l₂ spellings) :
    slots? fields (.object l₁) = slots? fields (.object l₂) := by
  rw [slots?, slots?]
  induction fields with
  | nil => rfl
  | cons spellings fields ih =>
    obtain ⟨hfirst, hrest⟩ := List.forall_mem_cons.mp h
    rw [List.mapM_cons, List.mapM_cons, hfirst, ih hrest]

/-- Members with keys that no field has change nothing. -/
theorem slots?_append_of_unknown {fields : List (List String)} {unknown : Members}
    (h : ∀ m ∈ unknown, m.1 ∉ fields.flatten) (members : Members) :
    slots? fields (.object (unknown ++ members)) = slots? fields (.object members) := by
  induction unknown with
  | nil => rfl
  | cons m unknown ih =>
    obtain ⟨hfirst, hrest⟩ := List.forall_mem_cons.mp h
    have hunknown : ∀ spellings ∈ fields, m.1 ∉ spellings :=
      fun spellings hs hm ↦ hfirst (List.mem_flatten_of_mem hs hm)
    rw [List.cons_append, slots?_of_unknown hunknown m.2, ih hrest]

theorem slot?_of_values_eq {l₁ l₂ : Members} {spellings : List String}
    (h : (l₁.filter fun m ↦ spellings.contains m.1).map Prod.snd =
      (l₂.filter fun m ↦ spellings.contains m.1).map Prod.snd) :
    slot? l₁ spellings = slot? l₂ spellings := by
  have hlength := congrArg List.length h
  rw [List.length_map, List.length_map] at hlength
  unfold slot?
  generalize l₁.filter _ = f₁ at h hlength ⊢
  generalize l₂.filter _ = f₂ at h hlength ⊢
  match f₁, f₂, hlength with
  | [], [], _ => rfl
  | [a], [b], _ =>
    have hvalue : a.2 = b.2 := List.head_eq_of_cons_eq h
    simp [hvalue]
  | _ :: _ :: _, _ :: _ :: _, _ => rfl

/-- A field may be given with any of its spellings. -/
theorem slots?_respell {fields : List (List String)} {key key' : String}
    (h : ∀ spellings ∈ fields, key ∈ spellings ↔ key' ∈ spellings) (v : Json)
    (before after : Members) :
    slots? fields (.object (before ++ (key', v) :: after)) =
      slots? fields (.object (before ++ (key, v) :: after)) := by
  refine slots?_congr fun spellings hs ↦ slot?_of_values_eq ?_
  by_cases hkey : key ∈ spellings
  · have hkey' : key' ∈ spellings := (h spellings hs).mp hkey
    simp [List.filter_append, hkey, hkey']
  · have hkey' : key' ∉ spellings := fun h' ↦ hkey ((h spellings hs).mpr h')
    simp [List.filter_append, hkey, hkey']

/-- A field that is given twice is an error. -/
theorem slots?_of_repeated {fields : List (List String)} {spellings : List String}
    {m m' : String × Json} {members : Members} (hfield : spellings ∈ fields)
    (hm : m.1 ∈ spellings) (hm' : m'.1 ∈ spellings)
    (h : [m, m'].Sublist members) : slots? fields (.object members) = none := by
  have htwo : 2 ≤ (members.filter fun m ↦ spellings.contains m.1).length := by
    simpa [List.filter_cons, hm, hm'] using (h.filter fun m ↦ spellings.contains m.1).length_le
  have hslot : slot? members spellings = none := by
    unfold slot?
    generalize members.filter _ = found at htwo ⊢
    match found, htwo with
    | _ :: _ :: _, _ => rfl
  rw [slots?, ← Option.not_isSome_iff_eq_none, isSome_mapM_iff]
  intro hall
  have hsome := hall spellings hfield
  rw [hslot] at hsome
  cases hsome

/-! ## Objects as they are read -/

/-- Neither the order of the members nor other members matter. -/
theorem slots?_ofMembers_perm {fields : List (List String)}
    {members unknown others : List (Option String × Json)}
    (hunknown : ∀ m ∈ unknown, ∃ key, m.1 = some key ∧ key ∉ fields.flatten)
    (h : others.Perm (unknown ++ members)) :
    slots? fields (ofMembers others) = slots? fields (ofMembers members) := by
  rcases eq_map_or_none_mem members with ⟨named, rfl⟩ | ⟨v, hv⟩
  · obtain ⟨extra, rfl, hextra⟩ := eq_map_of_unknown hunknown
    rw [← List.map_append] at h
    rcases eq_map_or_none_mem others with ⟨shuffled, rfl⟩ | ⟨v, hv⟩
    · have hinjective : Function.Injective fun m : String × Json ↦ (some m.1, m.2) := by
        rintro ⟨key, v⟩ ⟨key', v'⟩ heq
        cases heq
        rfl
      rw [ofMembers_map, ofMembers_map, slots?_perm ((List.map_perm_map_iff hinjective).mp h),
        slots?_append_of_unknown hextra]
    · obtain ⟨m, -, hm⟩ := List.mem_map.mp (h.subset hv)
      cases hm
  · have hv' : (none, v) ∈ others := h.symm.subset (List.mem_append_right _ hv)
    rw [ofMembers_of_none_mem hv, ofMembers_of_none_mem hv']

theorem slots?_ofMembers_respell {fields : List (List String)} {key key' : String}
    (h : ∀ spellings ∈ fields, key ∈ spellings ↔ key' ∈ spellings) (v : Json)
    (before after : List (Option String × Json)) :
    slots? fields (ofMembers (before ++ (some key', v) :: after)) =
      slots? fields (ofMembers (before ++ (some key, v) :: after)) := by
  rcases eq_map_or_none_mem (before ++ after) with ⟨named, hnamed⟩ | ⟨w, hw⟩
  · obtain ⟨front, back, -, rfl, rfl⟩ := List.append_eq_map_iff.mp hnamed
    rw [ofMembers_map_insert, ofMembers_map_insert, slots?_respell h]
  · have hmem : ∀ k : String, (none, w) ∈ before ++ (some k, v) :: after := by
      simpa using hw
    rw [ofMembers_of_none_mem (hmem key), ofMembers_of_none_mem (hmem key')]

theorem slots?_ofMembers_repeated {fields : List (List String)} {spellings : List String}
    {key key' : String} {v v' : Json} {members : List (Option String × Json)}
    (hfield : spellings ∈ fields)
    (hkey : key ∈ spellings) (hkey' : key' ∈ spellings)
    (h : [(some key, v), (some key', v')].Sublist members) :
    slots? fields (ofMembers members) = none := by
  rcases eq_map_or_none_mem members with ⟨named, rfl⟩ | ⟨w, hw⟩
  · obtain ⟨two, htwo, heq⟩ := List.sublist_map_iff.mp h
    match two, heq with
    | [m, m'], heq =>
      cases heq
      rw [ofMembers_map, slots?_of_repeated hfield hkey hkey' htwo]
  · rw [ofMembers_of_none_mem hw]
    rfl

end AgentConsole.Json
