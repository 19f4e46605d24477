/-!
# Excerpts

Lengths of texts are counted in characters, and a long text is shown by its first characters.
-/

namespace AgentConsole.Text

/-- The number of characters of a text. -/
def size (s : String) : Nat :=
  s.toList.length

/-- At most the first `n` characters of a text, and whether any were left out. -/
def excerpt (s : String) (n : Nat) : String × Bool :=
  (String.ofList (s.toList.take n), n < size s)

theorem size_excerpt (s : String) (n : Nat) : size (excerpt s n).1 = min n (size s) := by
  simp [size, excerpt]

/-- An excerpt that leaves nothing out is the text itself. -/
theorem excerpt_of_size_le {s : String} {n : Nat} (h : size s ≤ n) :
    excerpt s n = (s, false) := by
  have ht : s.toList.take n = s.toList := List.take_of_length_le h
  simp [excerpt, ht, Nat.not_lt.2 h]

end AgentConsole.Text
