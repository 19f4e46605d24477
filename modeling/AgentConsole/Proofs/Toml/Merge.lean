import AgentConsole.Proofs.Toml.Keys

/-!
# What is in merged tables

To lay one table over another goes through the members of the upper one, and every member changes
the table that the next one is laid over.  As long as the upper table has no key twice this makes no
difference: what a key stands for in the end depends on what it stands for in the two tables.  A
text, a number or a truth value covers whatever is under it; two tables come through to each other.

* `Toml.lookup_mergeMembers` : a key of a merged table.
* `Toml.leaf?_mergeMembers` : a key of a table in a merged table.
-/

namespace AgentConsole.Toml

/-- A value laid over what is there, if there is anything. -/
def onto (v : Toml) : Option Toml → Toml
  | none => v
  | some below => merge below v

theorem onto_table (below members : Members) :
    (table members).onto (some (.table below)) = .table (mergeMembers below members) := by
  rw [onto, merge]
  rfl

theorem mergeMembers_cons (lower : Members) (key : String) (v : Toml) (rest : Members) :
    mergeMembers lower ((key, v) :: rest) =
      mergeMembers ((key, v.onto (lower.lookup key)) :: lower.filter (·.1 ≠ key)) rest := by
  rw [mergeMembers]
  cases lower.lookup key <;> rfl

/-- A key of a merged table stands for what it stands for in the upper one, laid over what it stands
for in the lower one. -/
theorem lookup_mergeMembers {lower upper : Members} (h : (upper.map Prod.fst).Nodup)
    (key : String) :
    (mergeMembers lower upper).lookup key =
      ((upper.lookup key).map (·.onto (lower.lookup key))).or (lower.lookup key) := by
  induction upper generalizing lower with
  | nil => rfl
  | cons m rest ih =>
    obtain ⟨key', v⟩ := m
    obtain ⟨hnew, hrest⟩ := List.nodup_cons.mp h
    rw [mergeMembers_cons, ih hrest]
    by_cases hkey : key = key'
    · subst hkey
      rw [lookup_eq_none_iff_notMem.mpr hnew, List.lookup_cons_self, List.lookup_cons_self]
      rfl
    · rw [lookup_cons_of_ne hkey, lookup_cons_of_ne hkey, lookup_filter_of_ne hkey]

/-! ## Tables in tables -/

/-- A text, an integer or a truth value. -/
def IsLeaf : Toml → Prop
  | .string _ | .integer _ | .bool _ => True
  | _ => False

theorem IsLeaf.onto_eq {v : Toml} (h : v.IsLeaf) (below : Option Toml) : v.onto below = v := by
  cases below with
  | none => rfl
  | some below =>
    cases v with
    | string s => rw [onto, merge]
    | integer n => rw [onto, merge]
    | bool b => rw [onto, merge]
    | float _ | date _ | array _ | table _ => exact h.elim

/-- Whether a value is a table. -/
def isTable : Toml → Bool
  | .table _ => true
  | _ => false

/-- A value that is a table, unless it is missing. -/
def IsSection (v : Option Toml) : Prop :=
  ∀ w ∈ v, w.isTable = true

instance (v : Option Toml) : Decidable (IsSection v) :=
  inferInstanceAs (Decidable (∀ w ∈ v, _))

theorem IsSection.exists_eq {v : Option Toml} {w : Toml} (h : IsSection v) (hw : v = some w) :
    ∃ members, w = .table members := by
  cases w with
  | table members => exact ⟨members, rfl⟩
  | string _ | integer _ | float _ | bool _ | date _ | array _ => cases h _ hw

/-- The members under a header.  There are none if there is no table with the header. -/
def under (table : Members) (header : String) : Members :=
  ((table.lookup header).bind members?).getD []

variable {lower upper members : Members} {header key : String}

theorem under_of_lookup_eq_none (h : upper.lookup header = none) : under upper header = [] := by
  rw [under, h]
  rfl

theorem under_of_lookup_eq_table (h : upper.lookup header = some (.table members)) :
    under upper header = members := by
  rw [under, h]
  rfl

/-- What a key stands for under a header. -/
def leaf? (table : Members) (header key : String) : Option Toml :=
  (under table header).lookup key

/-- Two tables under one header come to one table. -/
theorem isSection_mergeMembers (hupper : (table upper).Distinct)
    (hl : IsSection (lower.lookup header)) (hu : IsSection (upper.lookup header)) :
    IsSection ((mergeMembers lower upper).lookup header) := by
  rw [lookup_mergeMembers hupper.nodup]
  cases hupperSection : upper.lookup header with
  | none => exact hl
  | some v =>
    obtain ⟨members, rfl⟩ := hu.exists_eq hupperSection
    rintro _ ⟨⟩
    cases hlowerSection : lower.lookup header with
    | none => rfl
    | some w =>
      obtain ⟨below, rfl⟩ := hl.exists_eq hlowerSection
      show ((table members).onto (some (.table below))).isTable = true
      rw [onto_table]
      rfl

/-- A table in the upper table hides no key of the table with its header in the lower one but those
that it has itself. -/
theorem leaf?_mergeMembers (hupper : (table upper).Distinct) (hl : IsSection (lower.lookup header))
    (hu : IsSection (upper.lookup header)) (hleaf : ∀ v ∈ leaf? upper header key, v.IsLeaf) :
    leaf? (mergeMembers lower upper) header key = (leaf? upper header key).or
      (leaf? lower header key) := by
  have hlookup := @lookup_mergeMembers lower upper hupper.nodup header
  unfold leaf? at hleaf ⊢
  cases hupperSection : upper.lookup header with
  | none =>
    rw [hupperSection] at hlookup
    rw [under_of_lookup_eq_none hupperSection, under, hlookup]
    rfl
  | some v =>
    obtain ⟨members, rfl⟩ := hu.exists_eq hupperSection
    have hmembers := (hupper.of_lookup hupperSection).nodup
    rw [under_of_lookup_eq_table hupperSection] at hleaf ⊢
    cases hlowerSection : lower.lookup header with
    | none =>
      rw [hupperSection, hlowerSection] at hlookup
      rw [under_of_lookup_eq_table hlookup, under_of_lookup_eq_none hlowerSection, List.lookup_nil,
        Option.or_none]
    | some w =>
      obtain ⟨below, rfl⟩ := hl.exists_eq hlowerSection
      rw [hupperSection, hlowerSection, Option.map_some, onto_table] at hlookup
      rw [under_of_lookup_eq_table hlookup, under_of_lookup_eq_table hlowerSection,
        lookup_mergeMembers hmembers]
      cases hkey : members.lookup key with
      | none => rfl
      | some x => rw [Option.map_some, (hleaf x hkey).onto_eq]

end AgentConsole.Toml
