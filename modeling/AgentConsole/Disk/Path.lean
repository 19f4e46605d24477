/-!
# Paths

A path names a file by the directories that lead to it, between slashes.  It starts at the root if
it starts with a slash, and at the working directory otherwise.

* `Path.components_join` : joining a directory and a name puts one component at the end.
-/

namespace AgentConsole.Path

/-- The pieces of a text between slashes. -/
def splitChars : List Char → List (List Char)
  | [] => [[]]
  | c :: rest =>
    if c = '/' then [] :: splitChars rest
    else
      match splitChars rest with
      | piece :: pieces => (c :: piece) :: pieces
      | [] => [[c]]

/-- The components of a path.  An empty one, like a dot, stays in the same directory. -/
def components (path : String) : List String :=
  (splitChars path.toList).map String.ofList

/-- Whether a component stays in the same directory. -/
def stays (component : String) : Bool :=
  component = "" || component = "."

/-- Whether a path starts at the root. -/
def isAbsolute (path : String) : Bool :=
  path.toList.head? = some '/'

/-- A name in a directory; the empty path is the working directory. -/
def join (directory name : String) : String :=
  if directory = "" then name
  else if directory.toList.getLast? = some '/' then directory ++ name
  else directory ++ "/" ++ name

/-- The path that leads from the root along some names. -/
def ofNames (names : List String) : String :=
  "/" ++ "/".intercalate names

theorem splitChars_ne_nil (cs : List Char) : splitChars cs ≠ [] := by
  cases cs with
  | nil => simp [splitChars]
  | cons c rest =>
    simp only [splitChars]
    split
    · simp
    · split <;> simp

theorem splitChars_of_notMem {cs : List Char} (h : '/' ∉ cs) : splitChars cs = [cs] := by
  induction cs with
  | nil => rfl
  | cons c rest ih =>
    simp only [List.mem_cons, not_or] at h
    simp [splitChars, Ne.symm h.1, ih h.2]

theorem splitChars_append_slash (cs rest : List Char) :
    splitChars (cs ++ '/' :: rest) = splitChars cs ++ splitChars rest := by
  induction cs with
  | nil => simp [splitChars]
  | cons c cs ih =>
    by_cases hc : c = '/'
    · simp [splitChars, hc, ih]
    · simp only [List.cons_append, splitChars, hc, if_false, ih]
      cases hs : splitChars cs with
      | nil => exact absurd hs (splitChars_ne_nil cs)
      | cons p ps => rfl

/-- Joining puts the name at the end, as one component.  What comes before leads along the same
names as the directory. -/
theorem components_join {directory name : String} (h : '/' ∉ name.toList) :
    ∃ front, components (join directory name) = front ++ [name] ∧
      front.filter (· ≠ "") = (components directory).filter (· ≠ "") := by
  have hname : components name = [name] := by simp [components, splitChars_of_notMem h]
  unfold join
  split
  next hd => exact ⟨[], by simpa using hname, by subst hd; decide⟩
  split
  next hlast =>
    obtain ⟨cs, hcs⟩ := List.getLast?_eq_some_iff.mp hlast
    refine ⟨(splitChars cs).map String.ofList, ?_, ?_⟩
    · simp [components, hcs, splitChars_append_slash, splitChars_of_notMem h]
    · simp [components, hcs, splitChars_append_slash, splitChars]
  next =>
    refine ⟨components directory, ?_, rfl⟩
    have hslash : "/".toList = ['/'] := rfl
    simp [components, hslash, splitChars_append_slash, splitChars_of_notMem h]

end AgentConsole.Path
