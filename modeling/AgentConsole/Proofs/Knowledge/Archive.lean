import AgentConsole.Knowledge.Archive
import AgentConsole.Proofs.Disk.Contents
import AgentConsole.Proofs.Json.Reread
import AgentConsole.Proofs.Text.Lines

/-!
# What an archive holds

An archive has no index.  A file of it is nothing but lines, and which documents it holds is known
from the documents that have been stored: those whose knowledge base has this file, in the order in
which they came.  Two things must hold for that.  The file of a knowledge base must stay the same
file while directories and other files come into being around it, and this is so because its
location can be read off its path (`Archive.place_pathFor`).  And a line must end where its document
ends: no text that a document can hold breaks it, because a line feed in a text is written as an
escape.

* `Archive.contentsAt?_ingest` : what one document changes.
* `Archive.contentsAt?_ingestAll` : what many documents come to, at every location of any disk.
* `Archive.files_of_deposits` : the files of an archive that has been new.
-/

namespace AgentConsole.Archive

/-! ## Names and locations of files -/

theorem toList_fileName (id : KnowledgeBaseId) :
    (fileName id).toList = id.name.toList.map nameChar ++ ".jsonl".toList := by
  rw [fileName, String.toList_append, String.toList_ofList]

theorem nameChar_ne_slash (c : Char) : nameChar c ≠ '/' := by
  unfold nameChar
  split
  · decide
  · next h => exact fun he ↦ h (.inl he)

theorem slash_notMem_fileName (id : KnowledgeBaseId) : '/' ∉ (fileName id).toList := by
  rw [toList_fileName, List.mem_append, not_or, List.mem_map]
  refine ⟨?_, by decide⟩
  rintro ⟨c, -, hc⟩
  exact nameChar_ne_slash c hc

/-- The ending tells the name of a file from a step to a directory. -/
theorem fileName_ne (id : KnowledgeBaseId) {step : String} (h : step.toList.length < 6) :
    fileName id ≠ step := by
  rintro rfl
  rw [toList_fileName, List.length_append] at h
  exact Nat.not_lt.mpr (Nat.le_add_left 6 _) h

theorem stays_fileName (id : KnowledgeBaseId) : Path.stays (fileName id) = false := by
  simp [Path.stays, fileName_ne id]

/-- The file of a knowledge base lies in the directory of the archive. -/
theorem place_pathFor (d : Disk) (directory : String) (id : KnowledgeBaseId) :
    d.place (pathFor directory id) = d.place directory ++ [fileName id] :=
  Disk.place_join (slash_notMem_fileName id) (stays_fileName id) (fileName_ne id (by decide)) d

theorem join_inj {directory name name' : String} :
    Path.join directory name = Path.join directory name' ↔ name = name' := by
  unfold Path.join
  split
  · rfl
  · split
    · exact String.append_right_inj directory
    · exact String.append_right_inj (directory ++ "/")

theorem pathFor_eq_iff {directory : String} {a b : KnowledgeBaseId} :
    pathFor directory a = pathFor directory b ↔ fileName a = fileName b := join_inj

/-- Two paths of knowledge bases lead to one file exactly if they are the same. -/
theorem place_pathFor_eq_iff {d : Disk} {directory : String} {a b : KnowledgeBaseId} :
    d.place (pathFor directory a) = d.place (pathFor directory b) ↔
      pathFor directory a = pathFor directory b := by
  rw [place_pathFor, place_pathFor, pathFor_eq_iff, List.append_cancel_left_eq, List.singleton_inj]

/-! ## Storing documents -/

/-- A document and the time at which it is stored. -/
structure Deposit where
  timestamp : String
  document : Document
  deriving DecidableEq

/-- The path of the file that a document goes to. -/
def Deposit.path (directory : String) (x : Deposit) : String :=
  pathFor directory x.document.knowledgeBase

/-- The line of a document, with its ending. -/
def Deposit.line (x : Deposit) : String :=
  Archive.line x.document x.timestamp

/-- Stores documents one after the other, as long as all goes well. -/
def ingestAll (directory : String) : List Deposit → Disk → Except IngestError Disk
  | [], d => .ok d
  | x :: rest, d =>
    match ingest directory x.timestamp x.document d with
    | (.ok _, d) => ingestAll directory rest d
    | (.error e, _) => .error e

variable {directory : String} {x : Deposit} {d d' : Disk} {log : List LogEntry}

/-- A document that is stored is added to a file, once there is a directory for it. -/
theorem exists_of_ingest (h : ingest directory x.timestamp x.document d = (.ok log, d')) :
    ∃ made, d.Grown made ∧ made.append (x.path directory) (Text.encode x.line) = .ok d' := by
  have hgrown := d.grown_makeDirectory directory
  unfold ingest at h
  split at h
  · cases h
  · next made hmade =>
    rw [hmade] at hgrown
    dsimp only at h
    split at h
    · cases h
    · next d'' happend =>
      obtain rfl := (Prod.mk.inj h).2
      exact ⟨made, hgrown, happend⟩

/-- Storing a document takes no directory away, and its path leads to its file from then on. -/
theorem keepsDirectories_ingest (h : ingest directory x.timestamp x.document d = (.ok log, d')) :
    d.KeepsDirectories d' ∧ d'.resolve (x.path directory) = .ok (d.place (x.path directory)) := by
  obtain ⟨made, hgrown, happend⟩ := exists_of_ingest h
  obtain ⟨hresolve, hfind, hd'⟩ := Disk.exists_of_modify happend
  have hput : made.KeepsDirectories d' := hd' ▸ Disk.keepsDirectories_put hfind _
  refine ⟨hgrown.keepsDirectories.trans hput, ?_⟩
  rw [← hgrown.keepsDirectories.place_eq]
  exact hput.resolve_eq_ok hresolve

/-- A document that is stored adds its line to what its own file holds, and no other file
changes. -/
theorem contentsAt?_ingest (h : ingest directory x.timestamp x.document d = (.ok log, d'))
    (l : Location) :
    d'.contentsAt? l =
      if l = d.place (x.path directory) then some ((d.contentsAt? l).getD [] ++ Text.encode x.line)
      else d.contentsAt? l := by
  obtain ⟨made, hgrown, happend⟩ := exists_of_ingest h
  obtain ⟨-, hfind, rfl⟩ := Disk.exists_of_modify happend
  have hroot : made.place (x.path directory) ≠ [] := fun he ↦ hfind (he ▸ made.find?_root)
  rw [Disk.contentsAt?_put hroot, hgrown.keepsDirectories.place_eq, hgrown.contentsAt?_eq,
    hgrown.contentsAt?_eq]
  split
  · next hl => rw [hl]
  · rfl

/-! ## Many documents -/

/-- What is at a location after lines have been added to it one by one. -/
def extended (before : Option Bytes) (lines : List Bytes) : Option Bytes :=
  lines.foldl (fun contents line ↦ some (contents.getD [] ++ line)) before

theorem extended_some (contents : Bytes) (lines : List Bytes) :
    extended (some contents) lines = some (contents ++ lines.flatten) := by
  induction lines generalizing contents with
  | nil => simp [extended]
  | cons line lines ih =>
    rw [List.flatten_cons, ← List.append_assoc]
    exact ih (contents ++ line)

theorem extended_none (lines : List Bytes) :
    extended none lines = if lines = [] then none else some lines.flatten := by
  cases lines with
  | nil => rfl
  | cons line lines => exact extended_some line lines

variable {deposits : List Deposit} {start final : Disk}

theorem exists_of_ingestAll_cons (h : ingestAll directory (x :: deposits) start = .ok final) :
    ∃ log next, ingest directory x.timestamp x.document start = (.ok log, next) ∧
      ingestAll directory deposits next = .ok final := by
  rw [ingestAll] at h
  split at h
  · next log next hnext => exact ⟨log, next, hnext, h⟩
  · cases h

/-- Every path that a document has gone to leads there in the end. -/
theorem keepsDirectories_ingestAll (h : ingestAll directory deposits start = .ok final) :
    start.KeepsDirectories final ∧
      ∀ x ∈ deposits, final.resolve (x.path directory) =
        .ok (start.place (x.path directory)) := by
  induction deposits generalizing start with
  | nil =>
    obtain rfl := Except.ok.inj h
    exact ⟨.refl start, nofun⟩
  | cons x rest ih =>
    obtain ⟨log, next, hnext, hrest⟩ := exists_of_ingestAll_cons h
    obtain ⟨hkeeps, hresolve⟩ := keepsDirectories_ingest hnext
    obtain ⟨hkeeps', hresolve'⟩ := ih hrest
    refine ⟨hkeeps.trans hkeeps', fun y hy ↦ ?_⟩
    rcases List.mem_cons.mp hy with rfl | hy
    · exact hkeeps'.resolve_eq_ok hresolve
    · rw [hresolve' y hy, hkeeps.place_eq]

/-- At every location there is what was there before, and after it the lines of the documents that
have gone there. -/
theorem contentsAt?_ingestAll (h : ingestAll directory deposits start = .ok final) (l : Location) :
    final.contentsAt? l = extended (start.contentsAt? l)
      ((deposits.filter fun x ↦ start.place (x.path directory) = l).map fun x ↦
        Text.encode x.line) := by
  induction deposits generalizing start with
  | nil =>
    obtain rfl := Except.ok.inj h
    rfl
  | cons x rest ih =>
    obtain ⟨log, next, hnext, hrest⟩ := exists_of_ingestAll_cons h
    have hplace : ∀ y : Deposit, next.place (y.path directory) = start.place (y.path directory) :=
      fun y ↦ (keepsDirectories_ingest hnext).1.place_eq _
    rw [ih hrest, contentsAt?_ingest hnext l]
    simp only [hplace]
    by_cases hl : start.place (x.path directory) = l
    · rw [List.filter_cons_of_pos (by simpa using hl), if_pos hl.symm]
      rfl
    · rw [List.filter_cons_of_neg (by simpa using hl), if_neg (Ne.symm hl)]

/-! ## Lines -/

/-- The text of a document in its file. -/
def Deposit.text (x : Deposit) : String :=
  (lineJson x.document x.timestamp).text

theorem Deposit.line_eq (x : Deposit) : x.line = x.text ++ "\n" := rfl

theorem Deposit.notMem_text (x : Deposit) : '\n' ∉ x.text.toList ∧ '\r' ∉ x.text.toList := by
  have hvisible : ∀ c ∈ x.text.toList, Json.Visible c := by
    rw [text, Json.text, String.toList_ofList]
    exact Json.visible_of_mem_chars _
  exact ⟨fun hc ↦ absurd (hvisible _ hc) (by decide),
    fun hc ↦ absurd (hvisible _ hc) (by decide)⟩

/-- Strings are read as they were, so a document is. -/
theorem Deposit.parse?_text (x : Deposit) :
    Json.parse? x.text = some (lineJson x.document x.timestamp) := by
  rw [text, Json.parse?_text]
  rfl

/-- A text holds documents in the given order, one on each line. -/
structure Lists (text : String) (deposits : List Deposit) : Prop where
  count_eq : text.toList.count '\n' = deposits.length
  ended : text.toList.getLast? = some '\n'
  lines : List.Forall₂
    (fun line x ↦ Json.parse? line = some (.object
      [("id", .string x.document.id), ("title", .string x.document.title),
        ("action", .string "store"), ("content", .string x.document.content),
          ("timestamp", .string x.timestamp)]))
    (Text.lines text) deposits

theorem toList_join_line (deposits : List Deposit) :
    (String.join (deposits.map Deposit.line)).toList =
      (deposits.map fun x ↦ x.text.toList).flatMap (· ++ ['\n']) := by
  simp [String.toList_join, List.flatMap_map, Deposit.line_eq]

theorem lists_join_line {deposits : List Deposit} (hne : deposits ≠ []) :
    Lists (String.join (deposits.map Deposit.line)) deposits where
  count_eq := by
    rw [toList_join_line, List.count_flatMap, List.map_map]
    have hone :
        List.count '\n' ∘ (· ++ ['\n']) ∘ (fun x : Deposit ↦ x.text.toList) =
          fun _ ↦ 1 := by
      funext x
      simp [List.count_eq_zero_of_not_mem x.notMem_text.1]
    simp [Function.comp_assoc, hone]
  ended := by
    obtain ⟨front, x, rfl⟩ := (List.eq_nil_or_concat' deposits).resolve_left hne
    rw [toList_join_line]
    simp
  lines := by
    have hlines :
        Text.lines (String.join (deposits.map Deposit.line)) = deposits.map Deposit.text := by
      rw [Text.lines, toList_join_line, Text.linesOf_flatMap]
      · simp [Function.comp_def]
      · intro line hline
        obtain ⟨x, -, rfl⟩ := List.mem_map.mp hline
        exact x.notMem_text
    rw [hlines, List.forall₂_map_left_iff, List.forall₂_same]
    exact fun x _ ↦ x.parse?_text

/-! ## Files of an archive -/

/-- The documents that go to the file with a path, in their order. -/
def heldAt (directory path : String) (deposits : List Deposit) : List Deposit :=
  deposits.filter fun x ↦ x.path directory = path

theorem mem_heldAt_iff {path : String} :
    x ∈ heldAt directory path deposits ↔ x ∈ deposits ∧ x.path directory = path := by
  rw [heldAt, List.mem_filter, decide_eq_true_eq]

/-- Where the directory has been missing, the file of a knowledge base holds the lines of its
documents, and it is no file if it has none. -/
theorem contentsAt?_pathFor (hvacant : start.Vacant (start.place directory))
    (h : ingestAll directory deposits start = .ok final) (id : KnowledgeBaseId) :
    final.contentsAt? (start.place (pathFor directory id)) =
      if heldAt directory (pathFor directory id) deposits = [] then none
      else some (Text.encode
        (String.join ((heldAt directory (pathFor directory id) deposits).map Deposit.line))) := by
  have hbefore : start.contentsAt? (start.place (pathFor directory id)) = none := by
    rw [place_pathFor]
    exact hvacant.contentsAt?_eq _
  have hheld : (deposits.filter fun x ↦
      start.place (x.path directory) = start.place (pathFor directory id)) =
        heldAt directory (pathFor directory id) deposits :=
    List.filter_congr fun x _ ↦ decide_eq_decide.mpr place_pathFor_eq_iff
  rw [contentsAt?_ingestAll h, hbefore, hheld, extended_none, Text.encode_join, List.flatMap_map]
  simp only [List.map_eq_nil_iff]
  rfl

/-- A file holds what has gone to it, and nothing else. -/
theorem readText_pathFor (hvacant : start.Vacant (start.place directory))
    (h : ingestAll directory deposits start = .ok final) {id : KnowledgeBaseId}
    (hne : heldAt directory (pathFor directory id) deposits ≠ []) :
    ∃ text, final.readText (pathFor directory id) = .ok text ∧
      Lists text (heldAt directory (pathFor directory id) deposits) := by
  have hcontents := contentsAt?_pathFor hvacant h id
  rw [if_neg hne] at hcontents
  obtain ⟨x, hx⟩ := List.exists_mem_of_ne_nil _ hne
  obtain ⟨hx, hpath⟩ := mem_heldAt_iff.mp hx
  have hresolve := (keepsDirectories_ingestAll h).2 x hx
  exact ⟨_, Disk.readText_eq_ok (hpath ▸ hresolve) hcontents, lists_join_line hne⟩

/-- Documents are stored one after the other in an archive whose directory has not been there.  Then
the file of each knowledge base holds exactly the documents whose knowledge base has this file, in
their order and one on each line, and it is not there if there are none.  What else there is in
files after that was there before.  Every single document, on any disk, adds its line to one file
and leaves all others. -/
theorem files_of_deposits (hvacant : start.Vacant (start.place directory))
    (h : ingestAll directory deposits start = .ok final) :
    (∀ id,
      let held := heldAt directory (pathFor directory id) deposits
      (held = [] → final.isFile (pathFor directory id) = false) ∧
        (held ≠ [] → ∃ text, final.readText (pathFor directory id) = .ok text ∧
          Lists text held)) ∧
    (∀ l, final.contentsAt? l = start.contentsAt? l ∨
      start.contentsAt? l = none ∧
      ∃ x ∈ deposits, final.resolve (x.path directory) = .ok l) ∧
    ∀ (x : Deposit) (before after : Disk) (log : List LogEntry),
      ingest directory x.timestamp x.document before = (.ok log, after) →
      ∃ own, after.resolve (x.path directory) = .ok own ∧
        after.contentsAt? own = some ((before.contentsAt? own).getD [] ++ Text.encode x.line) ∧
        ∀ l, l ≠ own → after.contentsAt? l = before.contentsAt? l := by
  obtain ⟨hkeeps, hresolve⟩ := keepsDirectories_ingestAll h
  refine ⟨fun id ↦ ?_, fun l ↦ ?_, fun x before after log hx ↦ ?_⟩
  · refine ⟨fun hnone ↦ ?_, readText_pathFor hvacant h⟩
    have hcontents := contentsAt?_pathFor hvacant h id
    rw [if_pos hnone, ← hkeeps.place_eq] at hcontents
    exact Disk.isFile_eq_false hcontents
  · by_cases hl : ∃ x ∈ deposits, start.place (x.path directory) = l
    · obtain ⟨x, hx, rfl⟩ := hl
      refine .inr ⟨?_, x, hx, hresolve x hx⟩
      rw [Deposit.path, place_pathFor]
      exact hvacant.contentsAt?_eq _
    · have hnone : (deposits.filter fun x ↦ start.place (x.path directory) = l) = [] := by
        rw [List.filter_eq_nil_iff]
        exact fun x hx hxl ↦ hl ⟨x, hx, of_decide_eq_true hxl⟩
      rw [contentsAt?_ingestAll h, hnone]
      exact .inl rfl
  · refine ⟨before.place (x.path directory), (keepsDirectories_ingest hx).2, ?_,
      fun l hl ↦ ?_⟩
    · rw [contentsAt?_ingest hx, if_pos rfl]
    · rw [contentsAt?_ingest hx, if_neg hl]

/-- Three documents of two knowledge bases.  The file of the first one holds two of them, one of
which has a line break and quotes in its content. -/
theorem files_of_three_deposits :
    let start : Disk := ⟨[(["home"], .directory)], ["home"]⟩
    let first : Deposit := ⟨"t1", ⟨"m1", ⟨"notes"⟩, "One", "a\n\"b\""⟩⟩
    let second : Deposit := ⟨"t2", ⟨"m2", ⟨"plans"⟩, "Two", "c"⟩⟩
    let third : Deposit := ⟨"t3", ⟨"m3", ⟨"notes"⟩, "Three", "d"⟩⟩
    ∃ final text, start.Vacant (start.place "kb") ∧
      ingestAll "kb" [first, second, third] start = .ok final ∧
      final.readText "kb/notes.jsonl" = .ok text ∧ Lists text [first, third] ∧
      final.isFile "kb/others.jsonl" = false := by
  intro start first second third
  have hvacant : start.Vacant (start.place "kb") := fun below ↦ rfl
  have hnotes :
      heldAt "kb" (pathFor "kb" ⟨"notes"⟩) [first, second, third] = [first, third] := by decide
  have hothers : heldAt "kb" (pathFor "kb" ⟨"others"⟩) [first, second, third] = [] := by decide
  have hok : (ingestAll "kb" [first, second, third] start).isOk = true := by decide +kernel
  cases hrun : ingestAll "kb" [first, second, third] start with
  | error e => rw [hrun] at hok; cases hok
  | ok final =>
    obtain ⟨hfiles, -⟩ := files_of_deposits hvacant hrun
    obtain ⟨text, hread, hlists⟩ := (hfiles ⟨"notes"⟩).2 (hnotes ▸ nofun)
    exact ⟨final, text, hvacant, rfl, hread, hnotes ▸ hlists,
      (hfiles ⟨"others"⟩).1 hothers⟩

end AgentConsole.Archive
