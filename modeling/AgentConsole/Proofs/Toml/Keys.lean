import AgentConsole.Proofs.Lists
import AgentConsole.Toml.Document
import Mathlib.Data.List.Nodup

/-!
# Keys of tables

A TOML document may come to the same table again and again: by its header, by keys joined by dots,
in the tables below it.  It may not give a key twice.  Whoever looks a key up relies on that, and so
does `Toml.mergeMembers`, which takes a key that comes twice for two values one over the other.

Tables are built from the outside, so the invariant is about tables under construction
(`Toml.Node.Distinct`), and it is kept because each change is made to one table on the path to it,
where it either adds a new key or gives an old one another value.

* `Toml.EveryTable` : what holds of all tables in a value.
* `Toml.Node.Keyed.along` : what a change along a path keeps.
* `Toml.Node.Keyed.finish` : what is built in this way has no key twice.
-/

namespace AgentConsole.Toml

/-! ## Tables in a value -/

/-- Every table in a value, and the value itself if it is one, has a property. -/
inductive EveryTable (P : Members → Prop) : Toml → Prop where
  | string (s : String) : EveryTable P (.string s)
  | integer (n : Int) : EveryTable P (.integer n)
  | float (text : String) : EveryTable P (.float text)
  | bool (b : Bool) : EveryTable P (.bool b)
  | date (text : String) : EveryTable P (.date text)
  | array {items : List Toml} (h : ∀ v ∈ items, EveryTable P v) : EveryTable P (.array items)
  | table {members : Members} (own : P members) (h : ∀ m ∈ members, EveryTable P m.2) :
    EveryTable P (.table members)

/-- No key comes twice in any table. -/
def Distinct : Toml → Prop :=
  EveryTable fun members ↦ (members.map Prod.fst).Nodup

theorem Distinct.nodup {members : Members} (h : (table members).Distinct) :
    (members.map Prod.fst).Nodup := by
  cases h with
  | table own _ => exact own

theorem Distinct.of_lookup {members : Members} {key : String} {v : Toml}
    (h : (table members).Distinct) (hv : members.lookup key = some v) : v.Distinct := by
  cases h with
  | table _ h => exact h _ (mem_of_lookup_eq_some hv)

/-! ## Tables under construction -/

namespace Node

/-- No key comes twice in any table, and in what is finished already. -/
inductive Distinct : Node → Prop where
  | value {v : Toml} (h : v.Distinct) : Distinct (.value v)
  | table (origin : Origin) {members : Members} (nodup : (members.map Prod.fst).Nodup)
    (h : ∀ m ∈ members, Distinct m.2) : Distinct (.table origin members)
  | tables {elements : List Members}
    (nodup : ∀ members ∈ elements, (members.map Prod.fst).Nodup)
    (h : ∀ members ∈ elements, ∀ m ∈ members, Distinct m.2) : Distinct (.tables elements)

/-- The members of a table in which no key comes twice, nor in any below it. -/
structure Keyed (members : Members) : Prop where
  nodup : (members.map Prod.fst).Nodup
  nodes : ∀ m ∈ members, Distinct m.2

theorem keyed_nil : Keyed [] := ⟨List.nodup_nil, nofun⟩

variable {members members' : Members} {node : Node} {key : String}

theorem Keyed.table (h : Keyed members) (origin : Origin) : Distinct (.table origin members) :=
  .table origin h.nodup h.nodes

theorem Keyed.of_lookup (h : Keyed members) (hnode : members.lookup key = some node) :
    Distinct node :=
  h.nodes _ (mem_of_lookup_eq_some hnode)

theorem keyed_of_table {origin : Origin} (h : Distinct (.table origin members)) :
    Keyed members := by
  cases h with
  | table _ nodup h => exact ⟨nodup, h⟩

theorem distinct_tables_iff {elements : List Members} :
    Distinct (.tables elements) ↔ ∀ members ∈ elements, Keyed members := by
  constructor
  · rintro (_ | _ | ⟨nodup, h⟩) members hmem
    exact ⟨nodup members hmem, h members hmem⟩
  · exact fun h ↦ .tables (fun members hmem ↦ (h members hmem).nodup) fun members hmem ↦
      (h members hmem).nodes

theorem Keyed.add (h : Keyed members) (hnew : members.lookup key = none) (hnode : Distinct node) :
    Keyed (add key node members) where
  nodup := by
    rw [Node.add, List.map_append, List.nodup_append]
    refine ⟨h.nodup, List.nodup_singleton key, ?_⟩
    rintro k hk k' hk' rfl
    obtain rfl : k = key := by simpa using hk'
    exact lookup_eq_none_iff_notMem.mp hnew hk
  nodes := by
    intro m hm
    rcases List.mem_append.mp hm with hm | hm
    · exact h.nodes m hm
    · rw [List.mem_singleton.mp hm]
      exact hnode

theorem Keyed.replace (h : Keyed members) (hnode : Distinct node) :
    Keyed (replace key node members) where
  nodup := by
    have hkeys : (Node.replace key node members).map Prod.fst = members.map Prod.fst := by
      rw [Node.replace, List.map_map]
      refine List.map_congr_left fun m _ ↦ ?_
      by_cases hm : m.1 = key <;> simp [hm]
    rw [hkeys]
    exact h.nodup
  nodes := by
    intro m hm
    obtain ⟨m', hm', rfl⟩ := List.mem_map.mp hm
    split
    · exact hnode
    · exact h.nodes m' hm'

/-- A change to one table along a path keeps keys apart if it does so in that table. -/
theorem Keyed.along {byDots : Bool} {change : Origin → Members → Option Members}
    (hchange : ∀ origin members members', Keyed members →
      change origin members = some members' → Keyed members')
    {path : List String} {origin : Origin} (h : Keyed members)
    (hrun : along byDots change origin members path = some members') : Keyed members' := by
  induction path generalizing origin members members' with
  | nil => exact hchange origin members members' h hrun
  | cons key path ih =>
    rw [Node.along] at hrun
    split at hrun
    · next hnew =>
      obtain ⟨sub, hsub, rfl⟩ := Option.map_eq_some_iff.mp hrun
      exact h.add hnew ((ih keyed_nil hsub).table _)
    · cases hrun
    · next hfound =>
      split at hrun
      · cases hrun
      · obtain ⟨sub, hsub, rfl⟩ := Option.map_eq_some_iff.mp hrun
        exact h.replace ((ih (keyed_of_table (h.of_lookup hfound)) hsub).table _)
    · next elements hfound =>
      obtain ⟨last, hlast, hrun⟩ := Option.bind_eq_some_iff.mp hrun
      obtain ⟨last', hlast', rfl⟩ := Option.map_eq_some_iff.mp hrun
      have helements := distinct_tables_iff.mp (h.of_lookup hfound)
      refine h.replace (distinct_tables_iff.mpr fun members hmem ↦ ?_)
      rcases List.mem_append.mp hmem with hmem | hmem
      · exact helements members ((List.dropLast_sublist elements).subset hmem)
      · rw [List.mem_singleton.mp hmem]
        exact ih (helements last (List.mem_of_getLast? hlast)) hlast'

theorem Keyed.insert {keys : List String} {v : Toml} (h : Keyed members) (hv : v.Distinct)
    (hrun : insert keys v members = some members') : Keyed members' := by
  unfold Node.insert at hrun
  split at hrun
  · cases hrun
  · refine h.along ?_ hrun
    intro origin members members' hmembers hchange
    split at hchange
    · cases hchange
    · split at hchange
      · cases hchange
      · next hnew =>
        obtain rfl := Option.some.inj hchange
        exact hmembers.add (Option.not_isSome_iff_eq_none.mp hnew) (.value hv)

theorem Keyed.atHeader {keys : List String} {change : String → Members → Option Members}
    (hchange : ∀ key members members', Keyed members → change key members = some members' →
      Keyed members')
    (h : Keyed members) (hrun : atHeader keys change members = some members') : Keyed members' := by
  unfold Node.atHeader at hrun
  split at hrun
  · cases hrun
  · next key _ => exact h.along (fun _ ↦ hchange key) hrun

theorem Keyed.define {keys : List String} (h : Keyed members)
    (hrun : define keys members = some members') :
    Keyed members' := by
  refine h.atHeader ?_ hrun
  intro key members members' hmembers hchange
  split at hchange
  · next hnew =>
    obtain rfl := Option.some.inj hchange
    exact hmembers.add hnew (keyed_nil.table _)
  · next hfound =>
    obtain rfl := Option.some.inj hchange
    exact hmembers.replace ((keyed_of_table (hmembers.of_lookup hfound)).table _)
  · cases hchange

theorem Keyed.extend {keys : List String} (h : Keyed members)
    (hrun : extend keys members = some members') :
    Keyed members' := by
  refine h.atHeader ?_ hrun
  intro key members members' hmembers hchange
  split at hchange
  · next hnew =>
    obtain rfl := Option.some.inj hchange
    exact hmembers.add hnew (distinct_tables_iff.mpr (by simpa using keyed_nil))
  · next hfound =>
    obtain rfl := Option.some.inj hchange
    refine hmembers.replace (distinct_tables_iff.mpr fun members hmem ↦ ?_)
    rcases List.mem_append.mp hmem with hmem | hmem
    · exact distinct_tables_iff.mp (hmembers.of_lookup hfound) members hmem
    · rw [List.mem_singleton.mp hmem]
      exact keyed_nil
  · cases hchange

/-! ## Finished tables -/

theorem finishMembers_eq_map (members : Members) :
    finishMembers members = members.map fun m ↦ (m.1, finish m.2) := by
  induction members with
  | nil => rfl
  | cons m members ih => rw [finishMembers, ih, List.map_cons]

theorem finishTables_eq_map (elements : List Members) :
    finishTables elements = elements.map fun members ↦ .table (finishMembers members) := by
  induction elements with
  | nil => rfl
  | cons members elements ih => rw [finishTables, ih, List.map_cons]

theorem distinct_finishMembers_of_forall (nodup : (members.map Prod.fst).Nodup)
    (h : ∀ m ∈ members, (finish m.2).Distinct) :
    (Toml.table (finishMembers members)).Distinct := by
  rw [finishMembers_eq_map]
  refine .table ?_ ?_
  · rw [List.map_map]
    exact nodup
  · intro m hm
    obtain ⟨m', hm', rfl⟩ := List.mem_map.mp hm
    exact h m' hm'

theorem Distinct.finish (h : Distinct node) : node.finish.Distinct := by
  induction h with
  | value h => exact h
  | table origin nodup h ih => exact distinct_finishMembers_of_forall nodup ih
  | tables nodup h ih =>
    rw [Node.finish, finishTables_eq_map]
    refine .array fun v hv ↦ ?_
    obtain ⟨members, hmem, rfl⟩ := List.mem_map.mp hv
    exact distinct_finishMembers_of_forall (nodup members hmem) (ih members hmem)

theorem Keyed.finish (h : Keyed members) : (Toml.table (finishMembers members)).Distinct :=
  distinct_finishMembers_of_forall h.nodup fun m hm ↦ (h.nodes m hm).finish

end Node

end AgentConsole.Toml
