import AgentConsole.Proofs.Toml.Keys
import AgentConsole.Settings.Wrapped

/-!
# What unwrapping leaves

Unwrapping goes through a whole file and may put a value in the place of a table.  It neither adds
nor drops keys of the tables that stay, so no key comes twice afterwards that did not before.  A
file that does not use the two keys of wrapping below its top is left as it is.

* `Settings.distinct_unwrapMembers` : keys stay apart.
* `Settings.unwrapMembers?_eq_self` : files without wrapping.
-/

namespace AgentConsole.Settings

open Toml (Distinct EveryTable)

/-! ## Members and items one by one -/

theorem unwrapItems?_eq_mapM (items : List Toml) : unwrapItems? items = items.mapM unwrap? := by
  induction items with
  | nil => rfl
  | cons v items ih => rw [unwrapItems?, List.mapM_cons, ih]

theorem unwrapMembers?_eq_mapM (members : Toml.Members) :
    unwrapMembers? members = members.mapM fun m ↦ (unwrap? m.2).map fun v ↦ (m.1, v) := by
  induction members with
  | nil => rfl
  | cons m members ih =>
    obtain ⟨key, v⟩ := m
    rw [unwrapMembers?, List.mapM_cons, ih]
    cases unwrap? v <;> rfl

/-! ## Keys -/

/-- The table that is left has the same keys, and its values are unwrapped. -/
theorem distinct_table_of_forall {members members' : Toml.Members}
    (nodup : (members.map Prod.fst).Nodup)
    (hvalues : ∀ m ∈ members, ∀ v', unwrap? m.2 = some v' → v'.Distinct)
    (h : unwrapMembers? members = some members') : (Toml.table members').Distinct := by
  rw [unwrapMembers?_eq_mapM] at h
  refine .table ?_ fun m' hm' ↦ ?_
  · have hkeys : members'.map Prod.fst = members.map Prod.fst := by
      refine map_eq_of_mapM h fun m m' hm ↦ ?_
      obtain ⟨v, -, rfl⟩ := Option.map_eq_some_iff.mp hm
      rfl
    rw [hkeys]
    exact nodup
  · obtain ⟨m, hm, hunwrap⟩ := exists_of_mem_mapM h hm'
    obtain ⟨v, hv, rfl⟩ := Option.map_eq_some_iff.mp hunwrap
    exact hvalues m hm v hv

theorem distinct_of_unwrapTable? {members : Toml.Members} {v : Toml}
    (hmembers : (Toml.table members).Distinct) (h : unwrapTable? members = some v) :
    v.Distinct := by
  unfold unwrapTable? at h
  split at h
  · cases h
  · obtain rfl := Option.some.inj h
    cases hwrapped : members.lookup wrappedKey with
    | none => exact hmembers
    | some v => exact hmembers.of_lookup hwrapped

theorem distinct_unwrap {v v' : Toml} (hv : v.Distinct) (h : unwrap? v = some v') :
    v'.Distinct := by
  induction hv generalizing v' with
  | string s => cases h; exact .string s
  | integer n => cases h; exact .integer n
  | float text => cases h; exact .float text
  | bool b => cases h; exact .bool b
  | date text => cases h; exact .date text
  | array _ ih =>
    rw [unwrap?] at h
    obtain ⟨items', hitems', rfl⟩ := Option.map_eq_some_iff.mp h
    rw [unwrapItems?_eq_mapM] at hitems'
    refine .array fun w hw ↦ ?_
    obtain ⟨u, hu, huw⟩ := exists_of_mem_mapM hitems' hw
    exact ih u hu huw
  | table nodup _ ih =>
    rw [unwrap?] at h
    obtain ⟨members', hmembers', h⟩ := Option.bind_eq_some_iff.mp h
    exact distinct_of_unwrapTable?
      (distinct_table_of_forall nodup (fun m hm v' hv' ↦ ih m hm hv') hmembers') h

/-- A file without a key that comes twice has none when it is unwrapped. -/
theorem distinct_unwrapMembers {members members' : Toml.Members}
    (hmembers : (Toml.table members).Distinct) (h : unwrapMembers? members = some members') :
    (Toml.table members').Distinct := by
  cases hmembers with
  | table nodup hvalues =>
    exact distinct_table_of_forall nodup (fun m hm _ hv' ↦ distinct_unwrap (hvalues m hm) hv') h

/-! ## Files without wrapping -/

/-- No table in a value uses a key of wrapping. -/
def Unreserved : Toml → Prop :=
  EveryTable fun members ↦ members.lookup wrappedKey = none ∧ members.lookup markKey = none

theorem unwrapMembers?_eq_self_of_forall {members : Toml.Members}
    (h : ∀ m ∈ members, unwrap? m.2 = some m.2) :
    unwrapMembers? members = some members := by
  rw [unwrapMembers?_eq_mapM, mapM_eq_some_self_iff]
  intro m hm
  rw [h m hm]
  rfl

theorem Unreserved.unwrap?_eq_self {v : Toml} (h : Unreserved v) : unwrap? v = some v := by
  induction h with
  | string | integer | float | bool | date => rfl
  | array _ ih =>
    rw [unwrap?, unwrapItems?_eq_mapM, mapM_eq_some_self_iff.mpr ih]
    rfl
  | table own _ ih =>
    rw [unwrap?, unwrapMembers?_eq_self_of_forall ih, Option.bind_some, unwrapTable?, own.1, own.2]
    rfl

/-- A file that uses the keys of wrapping at its top at most is left as it is. -/
theorem unwrapMembers?_eq_self {members : Toml.Members} (h : ∀ m ∈ members, Unreserved m.2) :
    unwrapMembers? members = some members :=
  unwrapMembers?_eq_self_of_forall fun m hm ↦ (h m hm).unwrap?_eq_self

end AgentConsole.Settings
