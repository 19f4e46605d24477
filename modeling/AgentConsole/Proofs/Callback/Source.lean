import AgentConsole.Callback.Source
import AgentConsole.Proofs.Text.Lines

/-!
# What a recorded session tells

A source is asked for the next callback again and again.  One answer may pass over any number of
lines, and what it reports of them hangs on how many lines earlier answers have used up.  Put
together, the answers show nothing of this: they are the callbacks of the lines, in their order, and
the reports are about the lines that should have held one.

* `CallbackSource.contentOf` : what a line holds, said of the line alone.
* `CallbackSource.exists_continued_append` : the answers about the front of the lines come first,
  and the next answer goes on where they end.
* `CallbackSource.results_readings_ofBytes` : a reading to the end, line by line.
* `CallbackSource.tells_lines` : all answers of a source.
-/

namespace AgentConsole.CallbackSource

/-! ## Lines one by one -/

/-- What a line of a recorded session holds. -/
inductive LineContent where
  | blank
  | callback (c : Callback)
  /-- Text that is no callback. -/
  | unreadable (text : String)
  /-- No text. -/
  | invalid

/-- White space around what a line holds does not count. -/
def contentOf (line : Bytes) : LineContent :=
  match Text.decode? line with
  | none => .invalid
  | some text =>
    if Text.isBlank text then .blank
    else
      match Callback.read? (Text.trim text) with
      | some c => .callback c
      | none => .unreadable (Text.trim text)

/-- The callback of a line. -/
def callback? (line : Bytes) : Option Callback :=
  match contentOf line with
  | .callback c => some c
  | _ => none

/-- The text of a line that holds neither a callback nor white space only. -/
def unreadable? (line : Bytes) : Option String :=
  match contentOf line with
  | .unreadable text => some text
  | _ => none

/-- Whether a line holds text, but neither a callback nor white space only. -/
def isUnreadable (line : Bytes) : Bool := (unreadable? line).isSome

/-- The unreadable ones among some lines; the first line has the given number. -/
def unreadableLines (first : Nat) (lines : List Bytes) : List RefusedLine :=
  (lines.zipIdx first).filterMap fun l ↦ (unreadable? l.1).map (RefusedLine.mk l.2)

theorem unreadableLines_cons (first : Nat) (line : Bytes) (lines : List Bytes) :
    unreadableLines first (line :: lines) =
      ((unreadable? line).map (RefusedLine.mk first)).toList ++
        unreadableLines (first + 1) lines := by
  rw [unreadableLines, List.zipIdx_cons, List.filterMap_cons]
  cases unreadable? line with
  | none => rfl
  | some text => rfl

/-- What a line holds decides how an answer goes on. -/
theorem nextFrom_cons (read skipped : Nat) (refused : List RefusedLine) (line : Bytes)
    (rest : List Bytes) :
    nextFrom read skipped refused (line :: rest) =
      match contentOf line with
      | .blank => nextFrom (read + 1) skipped refused rest
      | .callback c => (.callback c, ⟨rest, read + 1, skipped⟩, refused.reverse)
      | .unreadable text => nextFrom (read + 1) (skipped + 1) (⟨read + 1, text⟩ :: refused) rest
      | .invalid => (.invalid, ⟨rest, read, skipped⟩, refused.reverse) := by
  rw [nextFrom, contentOf]
  cases Text.decode? line with
  | none => rfl
  | some text =>
    by_cases hblank : Text.isBlank text
    · have htrim := (Text.isBlank_iff_trim text).mp hblank
      simp only [hblank, htrim, if_true]
    · have htrim : ¬ Text.trim text = "" :=
        fun ht ↦ hblank ((Text.isBlank_iff_trim text).mpr ht)
      simp only [hblank, htrim, if_false]
      cases Callback.read? (Text.trim text) <;> rfl

/-! ## Answers -/

/-- The answers of a source to the first `n` questions. -/
def answers : Nat → CallbackSource → List Reading
  | 0, _ => []
  | n + 1, s =>
    match s.next with
    | (result, rest, refused) =>
      ⟨result, rest.skipped, refused.map (·.entry)⟩ :: answers n rest

/-- An answer, and those to `n` more questions. -/
def continued (answer : NextCallback × CallbackSource × List RefusedLine) (n : Nat) :
    List Reading :=
  ⟨answer.1, answer.2.1.skipped, answer.2.2.map (·.entry)⟩ :: answers n answer.2.1

theorem answers_succ (n : Nat) (s : CallbackSource) : answers (n + 1) s = continued s.next n := rfl

/-- At the end nothing changes any more. -/
theorem answers_of_lines_eq_nil (read skipped n : Nat) :
    answers n ⟨[], read, skipped⟩ = List.replicate n ⟨.finished, skipped, []⟩ := by
  induction n with
  | zero => rfl
  | succ n ih =>
    rw [List.replicate_succ, ← ih]
    rfl

/-- The answers about the front of the lines come first.  The next one goes on where they end: it
has read and skipped so many lines more, and still has to report what they have not reported. -/
theorem exists_continued_append {front : List Bytes}
    (h : ∀ line ∈ front, contentOf line ≠ .invalid) (rest : List Bytes) (n read skipped : Nat)
    (refused : List RefusedLine) :
    ∃ first unreported,
      continued (nextFrom read skipped refused (front ++ rest))
          ((front.filterMap callback?).length + n) =
        first ++ continued (nextFrom (read + front.length) (skipped + front.countP isUnreadable)
          unreported rest) n ∧
      first.map (·.result) = (front.filterMap callback?).map .callback ∧
      first.flatMap (·.log) ++ unreported.reverse.map (·.entry) =
        (refused.reverse ++ unreadableLines (read + 1) front).map (·.entry) := by
  induction front generalizing read skipped refused with
  | nil => exact ⟨[], refused, by simp [unreadableLines]⟩
  | cons line front ih =>
    have hfront : ∀ line ∈ front, contentOf line ≠ .invalid := fun l hl ↦ h l (by simp [hl])
    rw [List.cons_append, List.filterMap_cons, List.countP_cons, List.length_cons,
      unreadableLines_cons]
    cases hline : contentOf line with
    | invalid => exact absurd hline (h line (by simp))
    | blank =>
      obtain ⟨first, unreported, hall, hresults, hlog⟩ := ih hfront (read + 1) skipped refused
      refine ⟨first, unreported, ?_, ?_, ?_⟩
      · rw [nextFrom_cons, hline]
        simpa [callback?, isUnreadable, unreadable?, hline, Nat.add_assoc, Nat.add_comm 1]
          using hall
      · simpa [callback?, hline] using hresults
      · simpa [unreadable?, hline] using hlog
    | unreadable text =>
      obtain ⟨first, unreported, hall, hresults, hlog⟩ :=
        ih hfront (read + 1) (skipped + 1) (⟨read + 1, text⟩ :: refused)
      refine ⟨first, unreported, ?_, ?_, ?_⟩
      · rw [nextFrom_cons, hline]
        simpa [callback?, isUnreadable, unreadable?, hline, Nat.add_assoc, Nat.add_comm 1]
          using hall
      · simpa [callback?, hline] using hresults
      · simpa [unreadable?, hline] using hlog
    | callback c =>
      -- the answer is complete, and the next question starts with nothing to report
      obtain ⟨first, unreported, hall, hresults, hlog⟩ := ih hfront (read + 1) skipped []
      refine ⟨⟨.callback c, skipped, refused.reverse.map (·.entry)⟩ :: first,
        unreported, ?_, ?_, ?_⟩
      · have hlength : (c :: front.filterMap callback?).length + n =
            (front.filterMap callback?).length + n + 1 := by
          rw [List.length_cons]
          omega
        rw [nextFrom_cons, hline]
        simp only [callback?, isUnreadable, unreadable?, hline]
        rw [hlength, continued, answers_succ, next, hall, List.cons_append]
        simp [Nat.add_assoc, Nat.add_comm 1]
      · simp [callback?, hline, hresults]
      · rw [List.flatMap_cons, List.append_assoc, hlog]
        simp [unreadable?, hline]

/-! ## Reading to the end -/

/-- What a reading to the end comes to: the callbacks of the lines, up to the first one that is no
text. -/
def told : List Bytes → List NextCallback
  | [] => [.finished]
  | line :: rest =>
    match contentOf line with
    | .blank | .unreadable _ => told rest
    | .callback c => .callback c :: told rest
    | .invalid => [.invalid]

/-- An answer, and what comes after it. -/
def resultsFrom (answer : NextCallback × CallbackSource × List RefusedLine) : List NextCallback :=
  match answer.1 with
  | .callback c => .callback c :: answer.2.1.readings.map (·.result)
  | result => [result]

theorem results_readings (s : CallbackSource) :
    s.readings.map (·.result) = resultsFrom s.next := by
  rw [readings, resultsFrom]
  split
  · next heq => simp only [heq, List.map_cons]
  · next hne heq =>
    rw [heq]
    split
    · next c hc => exact absurd hc (hne c)
    · rfl

theorem resultsFrom_nextFrom (lines : List Bytes) (read skipped : Nat)
    (refused : List RefusedLine) :
    resultsFrom (nextFrom read skipped refused lines) = told lines := by
  induction lines generalizing read skipped refused with
  | nil => rfl
  | cons line rest ih =>
    rw [nextFrom_cons, told]
    cases contentOf line with
    | blank => exact ih ..
    | unreadable text => exact ih ..
    | invalid => rfl
    | callback c =>
      exact congrArg (NextCallback.callback c :: ·) ((results_readings _).trans (ih ..))

/-- How the lines are shared out among the answers does not show in the results. -/
theorem results_readings_ofBytes (bytes : Bytes) :
    (ofBytes bytes).readings.map (·.result) = told (Text.splitLines 10 13 bytes) := by
  rw [results_readings, next, resultsFrom_nextFrom, ofBytes, Text.linesOf_eq_splitLines]

/-- Where all lines are text, all their callbacks are told. -/
theorem told_of_forall_ne_invalid {lines : List Bytes}
    (h : ∀ l ∈ lines, contentOf l ≠ .invalid) :
    told lines = (lines.filterMap callback?).map .callback ++ [.finished] := by
  induction lines with
  | nil => rfl
  | cons line rest ih =>
    obtain ⟨hline, hrest⟩ := List.forall_mem_cons.mp h
    rw [told]
    cases hcontent : contentOf line with
    | blank | unreadable text => simp [callback?, hcontent, ih hrest]
    | callback c => simp [callback?, hcontent, ih hrest]
    | invalid => exact absurd hcontent hline

/-- A line that is no text ends the reading. -/
theorem exists_told_eq_of_invalid {lines : List Bytes}
    (h : ¬ ∀ l ∈ lines, contentOf l ≠ .invalid) :
    ∃ cs : List Callback, told lines = cs.map .callback ++ [.invalid] := by
  induction lines with
  | nil => exact absurd (by simp) h
  | cons line rest ih =>
    rw [told]
    cases hcontent : contentOf line with
    | invalid => exact ⟨[], rfl⟩
    | blank | unreadable text => exact ih fun hrest ↦ h (by simpa [hcontent] using hrest)
    | callback c =>
      obtain ⟨cs, hcs⟩ := ih fun hrest ↦ h (by simpa [hcontent] using hrest)
      exact ⟨c :: cs, congrArg (NextCallback.callback c :: ·) hcs⟩

/-! ## All answers -/

/-- The answers of a source begin with the given ones, and what it has counted and reported when it
gives the last of them is about the given lines. -/
structure Tells (s : CallbackSource) (results : List NextCallback) (lines : List Bytes) : Prop where
  results_eq : (answers results.length s).map (·.result) = results
  skipped_eq :
    (answers results.length s).getLast?.map (·.skipped) = some (lines.countP isUnreadable)
  /-- Each unreadable line is reported once, by its number and with what the reader has to say of
  it. -/
  log_eq : ∀ why,
    ((answers results.length s).flatMap (·.log)).map (fun e ↦ (e.severity, e.text why)) =
      (unreadableLines 1 lines).map fun l ↦ (.warning,
        "Skipping record: Invalid callback record at line " ++ toString l.number ++
          ": " ++ why l.text)

/-- A line that is not unreadable adds nothing. -/
theorem Tells.concat {s : CallbackSource} {results : List NextCallback} {lines : List Bytes}
    (h : s.Tells results lines) {line : Bytes} (hline : isUnreadable line = false) :
    s.Tells results (lines ++ [line]) := by
  refine ⟨h.results_eq, ?_, ?_⟩
  · rw [h.skipped_eq, List.countP_append, List.countP_singleton, hline]
    rfl
  · intro why
    have hnone : unreadable? line = none := by simpa [isUnreadable] using hline
    rw [h.log_eq]
    simp [unreadableLines, List.zipIdx_append, hnone]

/-- A source whose first lines are text tells of them first, and what comes then has to report what
has been left unreported. -/
theorem tells_of_next {bytes : Bytes} {front rest : List Bytes} {more : List NextCallback} {n : Nat}
    (hlines : Text.linesOf 10 13 bytes = front ++ rest)
    (htext : ∀ line ∈ front, contentOf line ≠ .invalid) (hlength : more.length = n + 1)
    (hnext : ∀ unreported,
      let last := continued (nextFrom front.length (front.countP isUnreadable) unreported rest) n
      last.map (·.result) = more ∧
        last.getLast?.map (·.skipped) = some (front.countP isUnreadable) ∧
        last.flatMap (·.log) = unreported.reverse.map (·.entry)) :
    Tells (ofBytes bytes) ((front.filterMap callback?).map .callback ++ more) front := by
  obtain ⟨first, unreported, hall, hresults, hlog⟩ :=
    exists_continued_append htext rest n 0 0 []
  obtain ⟨hmore, hskipped, hunreported⟩ := hnext unreported
  have hanswers : answers ((front.filterMap callback?).map NextCallback.callback ++ more).length
      (ofBytes bytes) = first ++
        continued (nextFrom front.length (front.countP isUnreadable) unreported rest) n := by
    rw [List.length_append, List.length_map, hlength, ← Nat.add_assoc, answers_succ, next]
    rw [Nat.zero_add, Nat.zero_add] at hall
    rw [← hall, ← hlines]
    rfl
  refine ⟨?_, ?_, ?_⟩
  · rw [hanswers, List.map_append, hresults, hmore]
  · rw [hanswers, List.getLast?_append, Option.map_or, hskipped, Option.some_or]
  · intro why
    rw [hanswers, List.flatMap_append, hunreported, hlog, List.map_map]
    rfl

/-- All answers of a source.  Cut the bytes into lines.

Where all lines before a callback are text, the callback is the answer after those of these lines.
Where all lines are text, the answers are the callbacks of all of them, and from then on that there
are no more.  The first line that is no text is answered by saying so, after the callbacks before
it.

At each of these points the source has counted the unreadable lines that it has passed over, and has
reported each of them once, by its number among all lines and with what the reader says of it. -/
theorem tells_lines (bytes : Bytes) :
    let lines := Text.splitLines 10 13 bytes
    (∀ front line rest c, lines = front ++ line :: rest →
      (∀ l ∈ front, contentOf l ≠ .invalid) → contentOf line = .callback c →
      Tells (ofBytes bytes) ((front.filterMap callback?).map .callback ++ [.callback c])
        (front ++ [line])) ∧
    ((∀ l ∈ lines, contentOf l ≠ .invalid) → ∀ n,
      Tells (ofBytes bytes)
        ((lines.filterMap callback?).map .callback ++ List.replicate (n + 1) .finished) lines) ∧
    (∀ front line rest, lines = front ++ line :: rest →
      (∀ l ∈ front, contentOf l ≠ .invalid) → contentOf line = .invalid →
      Tells (ofBytes bytes) ((front.filterMap callback?).map .callback ++ [.invalid]) front) := by
  intro lines
  have hlinesOf : Text.linesOf 10 13 bytes = lines := Text.linesOf_eq_splitLines 10 13 bytes
  refine ⟨?_, ?_, ?_⟩
  · intro front line rest c hlines htext hline
    have hread : isUnreadable line = false := by rw [isUnreadable, unreadable?, hline]; rfl
    refine Tells.concat ?_ hread
    refine tells_of_next (hlinesOf.trans hlines) htext rfl fun unreported ↦ ?_
    rw [nextFrom_cons, hline]
    simp [continued, answers]
  · intro htext n
    have hlines : Text.linesOf 10 13 bytes = lines ++ [] := hlinesOf.trans (List.append_nil _).symm
    refine tells_of_next hlines htext (List.length_replicate ..) fun unreported ↦ ?_
    have hlast := answers_of_lines_eq_nil lines.length (lines.countP isUnreadable) n
    refine ⟨?_, ?_, ?_⟩
    · simp [nextFrom, continued, hlast, List.replicate_succ]
    · simp [nextFrom, continued, hlast, List.getLast?_cons, List.getLast?_replicate]
      split <;> rfl
    · simp [nextFrom, continued, hlast]
  · intro front line rest hlines htext hline
    refine tells_of_next (hlinesOf.trans hlines) htext rfl fun unreported ↦ ?_
    rw [nextFrom_cons, hline]
    simp [continued, answers]

/-- A session with a blank line, a line that is no callback, a callback, and no text after it.  The
first answer passes over two lines and reports the second one. -/
theorem tells_of_unreadable_line :
    let bytes := Text.encode "\r\nnot json\r\n \x7b\"data\":\"Hi\"\x7d\n" ++ [255]
    let lines := [[], Text.encode "not json", Text.encode " \x7b\"data\":\"Hi\"\x7d"]
    let c := { Callback.empty with data := some "Hi" }
    Tells (ofBytes bytes) [.callback c] lines ∧
      Tells (ofBytes bytes) [.callback c, .invalid] lines ∧
      ∀ why, ((answers 2 (ofBytes bytes)).flatMap (·.log)).map
        (fun e ↦ (e.severity, e.text why)) =
        [(.warning, "Skipping record: Invalid callback record at line 2: " ++ why "not json")] := by
  intro bytes lines c
  obtain ⟨hcallback, -, hinvalid⟩ := tells_lines bytes
  have hblank : contentOf [] = .blank := by rfl
  have hunreadable : contentOf (Text.encode "not json") = .unreadable "not json" := by rfl
  have hline : contentOf (Text.encode " \x7b\"data\":\"Hi\"\x7d") = .callback c := by rfl
  have htells : Tells (ofBytes bytes) [.callback c, .invalid] lines := by
    refine hinvalid lines [255] [] (by decide) ?_ rfl
    simp [lines, hblank, hunreadable, hline]
  refine ⟨?_, htells, fun why ↦ ?_⟩
  · refine hcallback [[], Text.encode "not json"] _ [[255]] c (by decide) ?_ hline
    simp [hblank, hunreadable]
  · have hlines : unreadableLines 1 lines = [⟨2, "not json"⟩] := by decide
    refine (htells.log_eq why).trans ?_
    rw [hlines]
    rfl

end AgentConsole.CallbackSource
