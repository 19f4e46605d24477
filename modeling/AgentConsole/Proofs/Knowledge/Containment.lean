import AgentConsole.Proofs.Knowledge.Archive

/-!
# Files of an archive stay in its directory

The name of a knowledge base is any text, and the name of its file is made of it.  It could try to
lead out of the archive in three ways: by slashes, which would make several steps of it, by being a
step that leads up, and by being no step at all.  Slashes are gone after `Archive.nameChar`, and the
ending rules out the other two.  So there is exactly one step from the directory to the file, and
what a document changes besides it is up to the directory alone.

This holds of documents that cannot be stored as well.  The disk that they leave behind is the one
on which the directory has been made, as far as that went.

* `Archive.steps_pathFor` : the path of a file.
* `Archive.find?_ingest_of_ne` : what one document leaves alone.
* `Archive.pathFor_confined` : what any documents leave alone.
-/

namespace AgentConsole

namespace Path

/-- The steps of a path, those left out that slashes next to each other stand for. -/
def steps (path : String) : List String :=
  (components path).filter (· ≠ "")

/-- The name of something that lies in a directory itself, whichever slashes a system goes by. -/
structure IsChildName (name : String) : Prop where
  ne_empty : name ≠ ""
  ne_dot : name ≠ "."
  ne_up : name ≠ ".."
  slash_notMem : '/' ∉ name.toList
  backslash_notMem : '\\' ∉ name.toList

theorem IsChildName.steps_join {name : String} (h : IsChildName name) (directory : String) :
    steps (join directory name) = steps directory ++ [name] := by
  obtain ⟨front, hcomponents, hfront⟩ := @components_join directory name h.slash_notMem
  rw [steps, hcomponents, List.filter_append, hfront,
    List.filter_cons_of_pos (by simpa using h.ne_empty)]
  rfl

end Path

namespace Archive

/-! ## Names of files -/

theorem nameChar_ne_backslash (c : Char) : nameChar c ≠ '\\' := by
  unfold nameChar
  split
  · decide
  · next h => exact fun he ↦ h (.inr he)

/-- No knowledge base has a name from which the name of its file could lead elsewhere. -/
theorem isChildName_fileName (id : KnowledgeBaseId) : Path.IsChildName (fileName id) where
  ne_empty := fileName_ne id (by decide)
  ne_dot := fileName_ne id (by decide)
  ne_up := fileName_ne id (by decide)
  slash_notMem := slash_notMem_fileName id
  backslash_notMem := by
    rw [toList_fileName, List.mem_append, not_or, List.mem_map]
    refine ⟨?_, by decide⟩
    rintro ⟨c, -, hc⟩
    exact nameChar_ne_backslash c hc

/-- The file is one step away from the directory. -/
theorem steps_pathFor (directory : String) (id : KnowledgeBaseId) :
    Path.steps (pathFor directory id) = Path.steps directory ++ [fileName id] :=
  (isChildName_fileName id).steps_join directory

/-! ## What a document changes -/

variable (directory timestamp : String) (x : Document) (d : Disk)

/-- The directory has been made, as far as that went, and after that at most the file has been
modified. -/
theorem ingest_snd_cases :
    (ingest directory timestamp x d).2 = (d.makeDirectory directory).2 ∨
      ∃ contents,
        (d.makeDirectory directory).2.find? (d.place (pathFor directory x.knowledgeBase)) ≠
          some .directory ∧
        (ingest directory timestamp x d).2 =
          (d.makeDirectory directory).2.put (d.place (pathFor directory x.knowledgeBase))
            (.file contents) := by
  have hgrown := d.grown_makeDirectory directory
  unfold ingest
  split
  · next e made hmade => exact .inl (by rw [hmade])
  · next made hmade =>
    rw [hmade] at hgrown ⊢
    dsimp only
    split
    · exact .inl rfl
    · next d' happend =>
      obtain ⟨-, hfind, hd'⟩ := Disk.exists_of_modify happend
      rw [hgrown.keepsDirectories.place_eq] at hfind hd'
      exact .inr ⟨_, hfind, hd'⟩

/-- No directory goes away, whether or not the document could be stored. -/
theorem keepsDirectories_ingest_snd : d.KeepsDirectories (ingest directory timestamp x d).2 := by
  have hgrown := (d.grown_makeDirectory directory).keepsDirectories
  rcases ingest_snd_cases directory timestamp x d with h | ⟨contents, hfind, h⟩
  · rw [h]
    exact hgrown
  · rw [h]
    exact hgrown.trans (Disk.keepsDirectories_put hfind contents)

variable {d} {l : Location}

/-- Everywhere but at the file of its knowledge base a document leaves what making the directory
leaves. -/
theorem find?_ingest_of_ne (h : l ≠ d.place directory ++ [fileName x.knowledgeBase]) :
    (ingest directory timestamp x d).2.find? l = (d.makeDirectory directory).2.find? l := by
  rcases ingest_snd_cases directory timestamp x d with hd | ⟨contents, -, hd⟩
  · rw [hd]
  · rw [hd, place_pathFor, Disk.find?_put_of_ne h]

theorem contentsAt?_ingest_of_ne (h : l ≠ d.place directory ++ [fileName x.knowledgeBase]) :
    (ingest directory timestamp x d).2.contentsAt? l = d.contentsAt? l := by
  rw [Disk.contentsAt?, find?_ingest_of_ne directory timestamp x h]
  exact (d.grown_makeDirectory directory).contentsAt?_eq l

/-! ## What any documents change -/

/-- Stores documents one after the other, and goes on where one cannot be stored. -/
def attemptAll (directory : String) (deposits : List Deposit) (d : Disk) : Disk :=
  deposits.foldl (fun d x ↦ (ingest directory x.timestamp x.document d).2) d

variable {directory}

/-- Files outside the directory are never touched, because the directory stays where it is. -/
theorem contentsAt?_attemptAll_of_ne {deposits : List Deposit}
    (h : ∀ x ∈ deposits, l ≠ d.place directory ++ [fileName x.document.knowledgeBase]) :
    (attemptAll directory deposits d).contentsAt? l = d.contentsAt? l := by
  induction deposits generalizing d with
  | nil => rfl
  | cons x rest ih =>
    have hplace :=
      (keepsDirectories_ingest_snd directory x.timestamp x.document d).place_eq directory
    have hrest :
        ∀ y ∈ rest, l ≠ (ingest directory x.timestamp x.document d).2.place directory ++
        [fileName y.document.knowledgeBase] := by
      intro y hy
      rw [hplace]
      exact h y (List.mem_cons_of_mem x hy)
    calc (attemptAll directory (x :: rest) d).contentsAt? l
      _ = (ingest directory x.timestamp x.document d).2.contentsAt? l := ih hrest
      _ = d.contentsAt? l := contentsAt?_ingest_of_ne directory _ _ (h x List.mem_cons_self)

/-- Whatever text the name of a knowledge base is, its path has one step more than the directory,
which ends in `.jsonl` and leads to something in the directory itself.  On any disk the path leads
to this child of where the directory is.  A document, stored or not, makes or changes no other file,
and the directories it makes are those that lead to the directory of the archive.  So any number of
documents with any names only make and change children of the directory. -/
theorem pathFor_confined (directory : String) (id : KnowledgeBaseId) :
    Path.IsChildName (fileName id) ∧
    (∃ stem, fileName id = stem ++ ".jsonl") ∧
    Path.steps (pathFor directory id) = Path.steps directory ++ [fileName id] ∧
    Path.isAbsolute (pathFor directory id) = Path.isAbsolute directory ∧
    (∀ d : Disk, d.place (pathFor directory id) = d.place directory ++ [fileName id]) ∧
    (∀ (x : Document) (timestamp : String) (d : Disk) (l : Location), x.knowledgeBase = id →
      l ≠ d.place directory ++ [fileName id] →
      (ingest directory timestamp x d).2.find? l = (d.makeDirectory directory).2.find? l ∧
        (ingest directory timestamp x d).2.contentsAt? l = d.contentsAt? l) ∧
    ∀ (deposits : List Deposit) (d : Disk) (l : Location),
      (attemptAll directory deposits d).contentsAt? l ≠ d.contentsAt? l →
      ∃ x ∈ deposits, l = d.place directory ++ [fileName x.document.knowledgeBase] := by
  refine ⟨isChildName_fileName id, ⟨_, rfl⟩, steps_pathFor directory id,
    Disk.isAbsolute_join (slash_notMem_fileName id),
    fun d ↦ place_pathFor d directory id, ?_, ?_⟩
  · rintro x timestamp d l rfl hl
    exact ⟨find?_ingest_of_ne directory timestamp x hl,
      contentsAt?_ingest_of_ne directory timestamp x hl⟩
  · intro deposits d l hchanged
    by_contra hno
    refine hchanged (contentsAt?_attemptAll_of_ne fun x hx hl ↦ hno ⟨x, hx, hl⟩)

/-- A name that would lead out of the directory if it were taken as it is. -/
example : pathFor "/data" ⟨"../etc/passwd"⟩ = "/data/.._etc_passwd.jsonl" := by decide

end Archive

end AgentConsole
