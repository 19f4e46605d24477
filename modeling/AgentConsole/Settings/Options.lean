import AgentConsole.Json.Fields
import AgentConsole.Json.Printer
import AgentConsole.Json.Reader

/-!
# Display options

What the display needs to know: how fast it ticks, whether it notifies, and whether it uses colors.
The options have a form in JSON, in which all of them are given.

* `Duration.make` : seconds and nanoseconds, where whole seconds among the latter carry over;
* `DisplayOptions.read?` and `DisplayOptions.write` : options in JSON.
-/

namespace AgentConsole

/-- A length of time. -/
structure Duration where
  seconds : Nat
  nanos : Nat
  nanos_lt : nanos < 1000000000
  deriving DecidableEq, Repr

namespace Duration

/-- Seconds are counted in 64 bits. -/
def limit : Nat := Nat.pow 2 64

/-- So many seconds and nanoseconds, if the seconds can be counted. -/
def make (seconds nanos : Nat) : Option Duration :=
  let seconds := seconds + nanos / 1000000000
  if seconds < limit then
    some ⟨seconds, nanos % 1000000000, Nat.mod_lt nanos (by decide)⟩
  else none

/-- So many milliseconds. -/
def ofMillis (n : Nat) : Duration :=
  ⟨n / 1000, n % 1000 * 1000000, by omega⟩

/-- The whole milliseconds. -/
def millis (d : Duration) : Nat :=
  d.seconds * 1000 + d.nanos / 1000000

@[simp] theorem millis_ofMillis (n : Nat) : (ofMillis n).millis = n := by
  simp only [millis, ofMillis]
  omega

/-- The number of seconds or nanoseconds, where seconds have 64 bits and nanoseconds 32. -/
def ofFields (seconds nanos : Json) : Option Duration := do
  make (← seconds.asNat limit) (← nanos.asNat (Nat.pow 2 32))

/-- A duration is an object of seconds and nanoseconds and of nothing else, or a pair of them. -/
def ofJson? : Json → Option Duration
  | .object [("secs", seconds), ("nanos", nanos)] => ofFields seconds nanos
  | .object [("nanos", nanos), ("secs", seconds)] => ofFields seconds nanos
  | .array [seconds, nanos] => ofFields seconds nanos
  | _ => none

def toJson (d : Duration) : Json :=
  .object [("secs", .number (.int d.seconds)), ("nanos", .number (.int d.nanos))]

end Duration

/-- Options of the display. -/
structure DisplayOptions where
  /-- The time between two frames of a spinner. -/
  tick : Duration
  /-- Whether the user is notified when a tool has finished. -/
  notifies : Bool
  color : Bool
  deriving DecidableEq, Repr

namespace DisplayOptions

/-- The time between two frames unless the user sets it, in milliseconds. -/
def defaultTick : Nat := 80

/-- The options of a user who sets none. -/
def default : DisplayOptions :=
  { tick := .ofMillis defaultTick, notifies := false, color := true }

/-- The fields of options. -/
def fields : List (List String) := [["tick_interval"], ["notify_on_completion"], ["color"]]

def ofJson? (j : Json) : Option DisplayOptions := do
  match ← j.slots? fields with
  | [tick, notifies, color] =>
    return { tick := ← Json.required Duration.ofJson? tick
             notifies := ← Json.required Json.asBool notifies
             color := ← Json.required Json.asBool color }
  | _ => none

def toJson (o : DisplayOptions) : Json :=
  .object [("tick_interval", o.tick.toJson), ("notify_on_completion", .bool o.notifies),
    ("color", .bool o.color)]

/-- The options that a text stands for. -/
def read? (s : String) : Option DisplayOptions :=
  (Json.parse? s).bind ofJson?

/-- The text of options. -/
def write (o : DisplayOptions) : String :=
  o.toJson.text

end DisplayOptions

end AgentConsole
