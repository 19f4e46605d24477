import AgentConsole.Decimal.Layout
import AgentConsole.Display.Basic
import AgentConsole.Terminal.Paint

/-!
# Terminals

A terminal that is not watched: live displays leave no trace on it but the lines that are meant to
stay.  Indicators exclude each other.  One that starts claims a slot which all of them share, and
gives it back when it stops or is dropped; while it is claimed no other can start.  Spinners do not
use the slot.

* `Terminal.display` : a terminal as a `Display`.
-/

namespace AgentConsole

/-- A terminal with what has been written to it. -/
structure Terminal where
  /-- Whether coloring is wanted. -/
  color : Bool
  /-- Whether escape sequences are written at all. -/
  ansi : Bool
  /-- Whether live displays are to leave nothing at all. -/
  hidden : Bool
  /-- Whether the slot of the indicators is claimed. -/
  claimed : Bool
  /-- The indicators that are running. -/
  indicators : List Nat
  /-- The spinners that are running. -/
  spinners : List Nat
  stdout : String
  stderr : String

namespace Terminal

/-- A fresh terminal. -/
def new (color ansi hidden : Bool) : Terminal :=
  { color, ansi, hidden, claimed := false, indicators := [], spinners := [], stdout := "",
    stderr := "" }

/-- Writes text. -/
def write (console : Console) (text : String) (t : Terminal) : Terminal :=
  match console with
  | .stdout => { t with stdout := t.stdout ++ text }
  | .stderr => { t with stderr := t.stderr ++ text }

/-- Sets text off, where coloring is wanted. -/
def paint (t : Terminal) (p : Paint) (text : String) : String :=
  p.apply (t.color && t.ansi) text

/-! ## Indicators -/

/-- Starts an indicator, unless another is running. -/
def startIndicator (n : Nat) (t : Terminal) : Outcome × Terminal :=
  if t.indicators.contains n then (.ok, t)
  else if t.claimed then (.failed .displayActive, t)
  else (.ok, { t with claimed := true, indicators := n :: t.indicators })

/-- Stops an indicator.  One that is not running gives nothing back. -/
def stopIndicator (n : Nat) (t : Terminal) : Terminal :=
  if t.indicators.contains n then
    { t with claimed := false, indicators := t.indicators.filter (· ≠ n) }
  else t

/-! ## Spinners -/

/-- Starts a spinner on a line of its own, unless it is running. -/
def startSpinner (n : Nat) (t : Terminal) : Terminal :=
  if t.spinners.contains n then t
  else
    let t := if t.hidden then t else t.write .stdout "\n"
    { t with spinners := n :: t.spinners }

/-- Stops a spinner. -/
def stopSpinner (n : Nat) (t : Terminal) : Terminal :=
  { t with spinners := t.spinners.filter (· ≠ n) }

/-- Stops a spinner and leaves a line, whether or not it was running. -/
def finishSpinner (n : Nat) (line : String) (t : Terminal) : Terminal :=
  let t := t.stopSpinner n
  if t.hidden then t else t.write .stdout (line ++ "\n")

/-- The line that a success leaves. -/
def successLine (t : Terminal) (label : String) : String :=
  t.paint .green "✔" ++ " " ++ label

/-- The line that a failure leaves. -/
def failureLine (t : Terminal) (label : String) : String :=
  t.paint .red "✖" ++ " " ++ t.paint .red label

/-- The line that an announcement leaves. -/
def infoLine (t : Terminal) (label : String) : String :=
  t.paint .blue "ℹ" ++ " 🔧 " ++ label

/-! ## Plain text -/

/-- The notice of a throttled loop. -/
def throttleLine (t : Terminal) (delay : Float) : String :=
  t.paint .red "Throttled! Waiting" ++ " " ++ t.paint .boldRed (writeFloat .plain delay) ++ " " ++
    t.paint .red "seconds before retrying..."

/-- A piece of streamed text. -/
def streamText (t : Terminal) (kind : StreamKind) (text : String) : String :=
  match kind with
  | .reasoning => t.paint .dim text
  | .output => text

/-- A notification.  It is colored whenever escape sequences are written. -/
def notificationLine (t : Terminal) (title message : String) : String :=
  Paint.apply t.ansi .cyan ("Notification: " ++ title ++ " - " ++ message)

/-! ## Calls -/

/-- Carries out a call to a spinner. -/
def actSpinner (n : Nat) (t : Terminal) : SpinnerAct → Terminal
  | .start _ => t.startSpinner n
  | .update _ => t
  | .succeed label => t.finishSpinner n (t.successLine label)
  | .fail label => t.finishSpinner n (t.failureLine label)
  | .info label => t.finishSpinner n (t.infoLine label)
  | .stop => t.stopSpinner n

/-- Carries out a call to an indicator. -/
def actIndicator (n : Nat) (t : Terminal) : IndicatorAct → Outcome × Terminal
  | .start _ => t.startIndicator n
  | .update _ => (.ok, t)
  | .stop => (.ok, t.stopIndicator n)

/-- Carries out a call. -/
def respond (c : Call) (t : Terminal) : Outcome × Terminal :=
  match c with
  | .openIndicator _ _ => (.ok, t)
  | .openSpinner _ => (.ok, t)
  | .indicator n act => t.actIndicator n act
  | .spinner n act => (.ok, t.actSpinner n act)
  | .stream kind text endLine =>
    (.ok, t.write .stdout (t.streamText kind text ++ if endLine then "\n" else ""))
  | .throttle console delay => (.ok, t.write console (t.throttleLine delay ++ "\n"))
  | .notify title message => (.ok, t.write .stdout (t.notificationLine title message ++ "\n"))

/-- A terminal as a display. -/
def display : Display Terminal := ⟨respond⟩

/-- What has been written since the last time, and the terminal from which it has been taken. -/
def take (t : Terminal) : (String × String) × Terminal :=
  ((t.stdout, t.stderr), { t with stdout := "", stderr := "" })

end Terminal

end AgentConsole
