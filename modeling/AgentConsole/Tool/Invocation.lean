import AgentConsole.Chat.Message
import AgentConsole.Decimal.Layout

/-!
# Running tools

A tool is tracked from the first piece of its input to its result.  The largest input seen so far is
the progress that is shown, and it never goes back.  The time between two readings of the clock
counts as zero when the clock has been set back.
-/

namespace AgentConsole

/-- A tool that is running. -/
structure Invocation where
  name : String
  /-- The clock when it was first seen, in nanoseconds. -/
  startedAt : Nat
  /-- The size of its largest input, in characters. -/
  largest : Nat
  deriving DecidableEq, Repr

namespace Invocation

/-- A tool that has just been seen. -/
def start (name : String) (now : Nat) : Invocation := ⟨name, now, 0⟩

/-- Takes note of an input of some size, and says whether it is the largest so far. -/
def observe (size : Nat) (i : Invocation) : Bool × Invocation :=
  if i.largest < size then (true, { i with largest := size }) else (false, i)

/-- The nanoseconds since the tool was first seen. -/
def elapsed (now : Nat) (i : Invocation) : Nat :=
  now - i.startedAt

/-- What is shown while the input grows. -/
def progressLabel (i : Invocation) : String :=
  i.name ++ ": " ++ toString i.largest ++ " chars"

@[simp] theorem observe_largest (size : Nat) (i : Invocation) :
    (i.observe size).2.largest = max i.largest size := by
  unfold observe
  split <;> simp <;> omega

end Invocation

/-- What is shown when a tool has just been seen. -/
def preparingLabel (name : String) : String := name ++ ": Preparing..."

/-- What is shown when the assistant announces a tool. -/
def startingLabel (name : String) : String := "Starting " ++ name ++ "..."

/-- The whole number next to a number that is not negative.  Halves are rounded up. -/
def nearestWhole (x : Float) : Float :=
  -- From 2^52 on every number is whole.
  if x < 4503599627370496 then
    let below := x.toUInt64.toFloat
    if 0.5 ≤ x - below then below + 1 else below
  else x

/-- Nanoseconds as seconds, rounded to hundredths.  Seconds and nanoseconds are converted apart. -/
def secondsOf (nanoseconds : Nat) : Float :=
  let whole := Float.ofNat (nanoseconds / Nat.pow 10 9)
  let seconds := whole + Float.ofNat (nanoseconds % Nat.pow 10 9) / 1e9
  nearestWhole (seconds * 100) / 100

/-- Seconds as they are shown: a text without point gets a fraction. -/
def secondsText (seconds : Float) : String :=
  let text := writeFloat .plain seconds
  if text.toList.contains '.' then text else text ++ ".0"

example : secondsText (secondsOf 1234567890) = "1.23" := by decide +kernel

example : secondsText (secondsOf 5000000) = "0.01" := by decide +kernel

/-- How a tool ended. -/
inductive Ending where
  | succeeded
  | failed
  deriving DecidableEq, Repr

namespace Ending

/-- The ending that a result reports. -/
def ofResult (r : ToolResult) : Ending :=
  if r.succeeded then .succeeded else .failed

/-- Whether a tool ended well. -/
def isSuccess : Ending → Bool
  | .succeeded => true
  | .failed => false

/-- The line that sums up a tool. -/
def message (name : String) (seconds : Float) : Ending → String
  | .succeeded => name ++ " completed in " ++ secondsText seconds ++ "s"
  | .failed => name ++ " failed after " ++ secondsText seconds ++ "s"

end Ending

end AgentConsole
