import Mathlib.Data.List.Forall2

/-!
# Lists of entries and lists that are read

Disks and tables are lists of keys and values, in which a key is looked up from the front.  Arrays
and objects are lists that are read item by item, and are not read at all if one of their items
cannot be.
-/

namespace AgentConsole

/-! ## Looking up keys -/

section

variable {κ α : Type} [BEq κ] [LawfulBEq κ] {k k' : κ} {entries : List (κ × α)}

theorem mem_of_lookup_eq_some {a : α} (h : entries.lookup k = some a) : (k, a) ∈ entries := by
  obtain ⟨front, back, rfl, -⟩ := List.lookup_eq_some_iff.mp h
  exact List.mem_append_right front List.mem_cons_self

theorem lookup_eq_none_iff_notMem : entries.lookup k = none ↔ k ∉ entries.map Prod.fst := by
  simp only [List.lookup_eq_none_iff, bne_iff_ne, List.mem_map, not_exists, not_and, ne_comm, ne_eq]

theorem lookup_cons_of_ne (h : k' ≠ k) (a : α) (entries : List (κ × α)) :
    List.lookup k' ((k, a) :: entries) = entries.lookup k' := by
  have hkey : (k' == k) = false := beq_eq_false_iff_ne.mpr h
  rw [List.lookup_cons, hkey]

/-- To take a key out does not matter for the others. -/
theorem lookup_filter_of_ne [DecidableEq κ] (h : k' ≠ k) (entries : List (κ × α)) :
    (entries.filter (·.1 ≠ k)).lookup k' = entries.lookup k' := by
  induction entries with
  | nil => rfl
  | cons x rest ih =>
    obtain ⟨k₀, a⟩ := x
    by_cases hk : k₀ = k
    · rw [List.filter_cons_of_neg (by simp [hk]), ih, lookup_cons_of_ne (hk ▸ h)]
    · rw [List.filter_cons_of_pos (by simp [hk]), List.lookup_cons, List.lookup_cons, ih]

end

/-! ## Lists that are read item by item -/

section

variable {α β γ : Type} {f : α → Option β} {l : List α} {l' : List β}

theorem mapM_eq_some_iff :
    l.mapM f = some l' ↔ List.Forall₂ (fun a b ↦ f a = some b) l l' := by
  constructor
  · intro h
    induction l generalizing l' with
    | nil =>
      cases h
      exact .nil
    | cons a l ih =>
      rw [List.mapM_cons] at h
      obtain ⟨b, hb, h⟩ := Option.bind_eq_some_iff.mp h
      obtain ⟨bs, hbs, h⟩ := Option.bind_eq_some_iff.mp h
      cases h
      exact .cons hb (ih hbs)
  · intro h
    induction h with
    | nil => rfl
    | cons hb _ ih =>
      rw [List.mapM_cons, hb, ih]
      rfl

theorem mapM_eq_some_map_iff {g : α → β} :
    l.mapM f = some (l.map g) ↔ ∀ a ∈ l, f a = some (g a) := by
  rw [mapM_eq_some_iff, List.forall₂_map_right_iff, List.forall₂_same]

/-- Items that are all read as what they are. -/
theorem mapM_eq_some_self_iff {f : α → Option α} :
    l.mapM f = some l ↔ ∀ a ∈ l, f a = some a := by
  rw [mapM_eq_some_iff, List.forall₂_same]

theorem exists_of_forall₂ {R : α → β → Prop} (h : List.Forall₂ R l l') {b : β}
    (hb : b ∈ l') :
    ∃ a ∈ l, R a b := by
  obtain ⟨i, hi, rfl⟩ := List.getElem_of_mem hb
  have hi' : i < l.length := h.length_eq ▸ hi
  exact ⟨l[i], List.getElem_mem hi', h.get hi' hi⟩

theorem exists_of_mem_mapM (h : l.mapM f = some l') {b : β} (hb : b ∈ l') :
    ∃ a ∈ l, f a = some b :=
  exists_of_forall₂ (mapM_eq_some_iff.mp h) hb

/-- What each item keeps is kept of all of them. -/
theorem map_eq_of_mapM {g : α → γ} {g' : β → γ} (h : l.mapM f = some l')
    (hg : ∀ a b, f a = some b → g' b = g a) : l'.map g' = l.map g := by
  have hall := mapM_eq_some_iff.mp h
  induction hall with
  | nil => rfl
  | cons hb hall ih => rw [List.map_cons, List.map_cons, hg _ _ hb, ih (mapM_eq_some_iff.mpr hall)]

theorem isSome_mapM_iff : (l.mapM f).isSome = true ↔ ∀ a ∈ l, (f a).isSome = true := by
  induction l with
  | nil => simp
  | cons a l ih =>
    rw [List.mapM_cons, List.forall_mem_cons, ← ih]
    cases f a with
    | none => simp
    | some b => cases l.mapM f <;> simp

end

end AgentConsole
