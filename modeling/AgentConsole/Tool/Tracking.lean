import AgentConsole.Tool.Invocation

/-!
# Tracked tools

The tools that are running, each under its identifier.  There is at most one entry for an
identifier.

* `Tools.find?_insert`, `Tools.find?_erase` : what the entries are after a change.
-/

namespace AgentConsole

/-- Running tools by identifier. -/
abbrev Tools := List (ToolId × Invocation)

namespace Tools

/-- The entry of a tool. -/
def find? (tools : Tools) (id : ToolId) : Option Invocation :=
  tools.lookup id

/-- Forgets a tool. -/
def erase (id : ToolId) (tools : Tools) : Tools :=
  tools.filter (·.1 ≠ id)

/-- Sets the entry of a tool. -/
def insert (id : ToolId) (i : Invocation) (tools : Tools) : Tools :=
  (id, i) :: tools.erase id

/-- The entries in the order of their identifiers. -/
def sorted (tools : Tools) : Tools :=
  tools.mergeSort fun a b ↦ decide (a.1 ≤ b.1)

theorem find?_erase (tools : Tools) (id other : ToolId) :
    (tools.erase id).find? other = if other = id then none else tools.find? other := by
  induction tools with
  | nil => simp [erase, find?]
  | cons e rest ih =>
    obtain ⟨key, i⟩ := e
    simp only [erase, find?] at ih ⊢
    by_cases hk : key = id
    · subst hk
      rw [List.filter_cons_of_neg (by simp), ih]
      by_cases ho : other = key
      · simp [ho]
      · simp [ho, List.lookup_cons, beq_eq_false_iff_ne.2 ho]
    · rw [List.filter_cons_of_pos (by simpa using hk), List.lookup_cons, List.lookup_cons, ih]
      by_cases ho : other = key
      · subst ho
        simp [hk]
      · simp [beq_eq_false_iff_ne.2 ho]

theorem erase_comm (tools : Tools) (id other : ToolId) :
    (tools.erase id).erase other = (tools.erase other).erase id := by
  rw [erase, erase, erase, erase, List.filter_filter, List.filter_filter]
  exact List.filter_congr fun _ _ ↦ Bool.and_comm _ _

theorem find?_insert (tools : Tools) (id other : ToolId) (i : Invocation) :
    (tools.insert id i).find? other = if other = id then some i else tools.find? other := by
  by_cases ho : other = id
  · simp [insert, find?, ho]
  · have h := find?_erase tools id other
    simp only [find?, ho, if_false] at h
    simp [insert, find?, List.lookup_cons, beq_eq_false_iff_ne.2 ho, ho, h]

end Tools

end AgentConsole
