import AgentConsole.Callback.Codec
import AgentConsole.Log
import AgentConsole.Text.Blank
import AgentConsole.Text.Lines
import AgentConsole.Text.Utf8

/-!
# Recorded callbacks

A recorded session is a text with one callback on each line.  Blank lines are passed over, and a
line that holds no callback is skipped and reported by its number, together with what its reader has
refused.  Only a line that is no text ends the reading with an error.
-/

namespace AgentConsole

/-- A recorded session as far as it has been read. -/
structure CallbackSource where
  /-- The lines to come. -/
  lines : List Bytes
  /-- How many lines have been read. -/
  read : Nat
  /-- How many of them have been skipped. -/
  skipped : Nat

/-- What comes next in a recorded session. -/
inductive NextCallback where
  | callback (c : Callback)
  | finished
  /-- A line is not UTF-8. -/
  | invalid

/-- A line that holds no callback. -/
structure RefusedLine where
  /-- The first line has the number one. -/
  number : Nat
  text : String
  deriving DecidableEq, Repr

/-- What is reported about a line that holds no callback. -/
def RefusedLine.entry (l : RefusedLine) : LogEntry where
  severity := .warning
  message := "Skipping record: Invalid callback record at line " ++ toString l.number
  refused := some l.text

namespace CallbackSource

/-- A recorded session that nothing has been read of. -/
def ofBytes (bytes : Bytes) : CallbackSource :=
  { lines := Text.linesOf 10 13 bytes, read := 0, skipped := 0 }

/-- Reads on from a line; the lines skipped on the way are given too. -/
def nextFrom (read skipped : Nat) (refused : List RefusedLine) :
    List Bytes → NextCallback × CallbackSource × List RefusedLine
  | [] => (.finished, ⟨[], read, skipped⟩, refused.reverse)
  | line :: rest =>
    match Text.decode? line with
    | none => (.invalid, ⟨rest, read, skipped⟩, refused.reverse)
    | some text =>
      let text := Text.trim text
      if text = "" then nextFrom (read + 1) skipped refused rest
      else
        match Callback.read? text with
        | some c => (.callback c, ⟨rest, read + 1, skipped⟩, refused.reverse)
        | none => nextFrom (read + 1) (skipped + 1) (⟨read + 1, text⟩ :: refused) rest

/-- The next callback, the source after it, and the lines skipped on the way. -/
def next (s : CallbackSource) : NextCallback × CallbackSource × List RefusedLine :=
  nextFrom s.read s.skipped [] s.lines

/-- A callback takes up at least one line. -/
theorem nextFrom_length_lt {read skipped : Nat} {refused : List RefusedLine} {lines : List Bytes}
    {c : Callback} (h : (nextFrom read skipped refused lines).1 = .callback c) :
    (nextFrom read skipped refused lines).2.1.lines.length < lines.length := by
  fun_induction nextFrom read skipped refused lines with
  | case1 => simp at h
  | case2 => simp at h
  | case3 _ _ _ _ _ _ _ _ _ ih => exact Nat.lt_succ_of_lt (ih h)
  | case4 => simp
  | case5 _ _ _ _ _ _ _ _ _ _ ih => exact Nat.lt_succ_of_lt (ih h)

/-! ## Reading to the end -/

/-- A step of the reading: what came, and what was skipped in this step and in all. -/
structure Reading where
  result : NextCallback
  skipped : Nat
  log : List LogEntry

/-- The readings from a source up to its end; the last one is no callback. -/
def readings (s : CallbackSource) : List Reading :=
  match _h : s.next with
  | (.callback c, rest, refused) =>
    ⟨.callback c, rest.skipped, refused.map (·.entry)⟩ :: readings rest
  | (result, rest, refused) => [⟨result, rest.skipped, refused.map (·.entry)⟩]
termination_by s.lines.length
decreasing_by
  have hlt := @nextFrom_length_lt s.read s.skipped [] s.lines c (by rw [← next, _h])
  rwa [← next, _h] at hlt

end CallbackSource

end AgentConsole
