import AgentConsole.Disk.Path
import AgentConsole.Text.Utf8

/-!
# Disks

A disk holds files and directories at locations, the lists of names that lead to them from the root.
Paths are resolved step by step, so every directory that a path passes through has to exist, even
one that it leaves again.  Operations fail for a stated cause and then change nothing; only
directories that have been made on the way to another stay.
-/

namespace AgentConsole

/-- Why an operation on a disk failed. -/
inductive IoError where
  | notFound
  | isADirectory
  | notADirectory
  | alreadyExists
  /-- The contents are not UTF-8. -/
  | invalidData
  /-- The path holds a null character. -/
  | invalidInput
  | nameTooLong
  deriving DecidableEq, Repr

/-- The wording of a failure. -/
def IoError.message : IoError → String
  | .notFound => "No such file or directory (os error 2)"
  | .isADirectory => "Is a directory (os error 21)"
  | .notADirectory => "Not a directory (os error 20)"
  | .alreadyExists => "File exists (os error 17)"
  | .invalidData => "stream did not contain valid UTF-8"
  | .invalidInput => "file name contained an unexpected NUL byte"
  | .nameTooLong => "File name too long (os error 36)"

/-- A place on a disk: the names that lead to it from the root. -/
abbrev Location := List String

/-- What can be at a location. -/
inductive Entry where
  | file (contents : Bytes)
  | directory
  deriving DecidableEq

/-- A disk and the working directory on it. -/
structure Disk where
  entries : List (Location × Entry)
  workingDirectory : Location

namespace Disk

/-- What is at a location.  The root is always there. -/
def find? (d : Disk) (l : Location) : Option Entry :=
  if l = [] then some .directory else d.entries.lookup l

/-- Puts something at a location. -/
def put (l : Location) (e : Entry) (d : Disk) : Disk :=
  { d with entries := (l, e) :: d.entries.filter (·.1 ≠ l) }

/-- Goes from a directory along some components. -/
def walk (d : Disk) (l : Location) : List String → Except IoError Location
  | [] => .ok l
  | c :: rest =>
    match d.find? l with
    | none => .error .notFound
    | some (.file _) => .error .notADirectory
    | some .directory =>
      if Path.stays c then d.walk l rest
      else if c = ".." then d.walk l.dropLast rest
      else d.walk (l ++ [c]) rest

/-- The longest name of a file, in bytes. -/
def nameLimit : Nat := 255

/-- The longest path, in bytes. -/
def pathLimit : Nat := 4095

/-- Why a path cannot be one at all, if so. -/
def pathFault? (path : String) : Option IoError :=
  if path = "" then some .notFound
  else if path.toList.contains '\x00' then some .invalidInput
  else if pathLimit < path.utf8ByteSize ||
      (Path.components path).any (nameLimit < ·.utf8ByteSize) then some .nameTooLong
  else none

/-- Where the resolution of a path starts. -/
def origin (d : Disk) (path : String) : Location :=
  if Path.isAbsolute path then [] else d.workingDirectory

/-- The location that a path names. -/
def resolve (d : Disk) (path : String) : Except IoError Location :=
  match pathFault? path with
  | some fault => .error fault
  | none => d.walk (d.origin path) (Path.components path)

/-- What a path names, if there is anything. -/
def status (d : Disk) (path : String) : Option Entry :=
  match d.resolve path with
  | .ok l => d.find? l
  | .error _ => none

/-- Whether there is anything at a path. -/
def contains (d : Disk) (path : String) : Bool :=
  (d.status path).isSome

/-- Whether there is a file at a path. -/
def isFile (d : Disk) (path : String) : Bool :=
  match d.status path with
  | some (.file _) => true
  | _ => false

/-- The contents of a file. -/
def read (d : Disk) (path : String) : Except IoError Bytes := do
  match d.find? (← d.resolve path) with
  | none => throw .notFound
  | some .directory => throw .isADirectory
  | some (.file contents) => return contents

/-- The text of a file. -/
def readText (d : Disk) (path : String) : Except IoError String := do
  match Text.decode? (← d.read path) with
  | none => throw .invalidData
  | some text => return text

/-- Replaces the contents of a file by what is made of them; a file that is not there has none. -/
def modify (d : Disk) (path : String) (f : Bytes → Bytes) : Except IoError Disk := do
  let l ← d.resolve path
  match d.find? l with
  | none => return d.put l (.file (f []))
  | some .directory => throw .isADirectory
  | some (.file contents) => return d.put l (.file (f contents))

/-- Replaces the contents of a file. -/
def write (d : Disk) (path : String) (contents : Bytes) : Except IoError Disk :=
  d.modify path fun _ ↦ contents

/-- Adds to the end of a file. -/
def append (d : Disk) (path : String) (contents : Bytes) : Except IoError Disk :=
  d.modify path fun before ↦ before ++ contents

/-! ## Making directories -/

/-- Makes one directory, given by the components from the last to the first.  It must be new, and
what leads to it must be there.  A path that ends in dots names nothing new. -/
def makeOne (d : Disk) (l : Location) (back : List String) : Except IoError Disk :=
  match back.dropWhile (· = "") with
  | [] => .error .alreadyExists
  | name :: above => do
    let l ← d.walk l above.reverse
    match d.find? l with
    | none => throw .notFound
    | some (.file _) => throw .notADirectory
    | some .directory =>
      if name = "." || name = ".." || (d.find? (l ++ [name])).isSome then throw .alreadyExists
      else return d.put (l ++ [name]) .directory

/-- Whether some components, from the last to the first, lead to a directory. -/
def leadsToDirectory (d : Disk) (l : Location) (back : List String) : Bool :=
  match d.walk l back.reverse with
  | .ok l => d.find? l = some .directory
  | .error _ => false

/-- Makes one directory, unless it is there. -/
def ensureOne (d : Disk) (l : Location) (back : List String) : Except IoError Disk :=
  match d.makeOne l back with
  | .ok d => .ok d
  | .error e => if d.leadsToDirectory l back then .ok d else .error e

/-- The components of the directory above, from the last to the first; dots at the end do not
count. -/
def above (back : List String) : List String :=
  ((back.dropWhile Path.stays).drop 1).dropWhile Path.stays

theorem length_above_lt (c : String) (rest : List String) :
    (above (c :: rest)).length < (c :: rest).length := by
  have h₁ := (List.dropWhile_sublist Path.stays (l := c :: rest)).length_le
  have h₂ := (List.dropWhile_sublist Path.stays
    (l := ((c :: rest).dropWhile Path.stays).drop 1)).length_le
  simp only [List.length_drop, List.length_cons] at h₁ h₂
  simp only [above, List.length_cons]
  omega

/-- Makes a directory, given by its components from the last to the first.  Where something that
leads to it is missing the directory above is made before. -/
def makeAlong (d : Disk) (l : Location) : List String → Except IoError Unit × Disk
  | [] => (.ok (), d)
  | c :: rest =>
    match d.ensureOne l (c :: rest) with
    | .ok d => (.ok (), d)
    | .error .notFound =>
      match d.makeAlong l (above (c :: rest)) with
      | (.error e, d) => (.error e, d)
      | (.ok (), d) =>
        match d.ensureOne l (c :: rest) with
        | .ok d => (.ok (), d)
        | .error e => (.error e, d)
    | .error e => (.error e, d)
termination_by back => back.length
decreasing_by exact length_above_lt c rest

/-- Makes a directory and those that lead to it, as far as they are missing. -/
def makeDirectory (d : Disk) (path : String) : Except IoError Unit × Disk :=
  if path = "" then (.ok (), d)
  else
    match pathFault? path with
    | some fault => (.error fault, d)
    | none => d.makeAlong (d.origin path) (Path.components path).reverse

/-- The files below a location, by the names that lead to them from there. -/
def filesBelow (d : Disk) (l : Location) : List (Location × Bytes) :=
  d.entries.filterMap fun e ↦
    match e.2 with
    | .file contents => if l.isPrefixOf e.1 then some (e.1.drop l.length, contents) else none
    | .directory => none

/-- What a disk holds that another did not hold at the same place, directories before what is in
them. -/
def changesSince (d before : Disk) : List (Location × Entry) :=
  (d.entries.filter fun e ↦ before.find? e.1 ≠ some e.2).reverse

end Disk

end AgentConsole
