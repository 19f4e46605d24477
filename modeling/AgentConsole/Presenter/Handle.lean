import AgentConsole.Presenter.Stage

/-!
# Handling callbacks

A callback is handled in eight steps, in this order, so that what it shows never lies under the
indicator of an earlier callback and a tool is tracked before a result of it is looked for:

1. output and tools put an end to the thinking indicator;
2. the indicator follows the life of the event loop;
3. reasoning is written;
4. the notice of a throttled loop is written;
5. a forced stop stops what is live;
6. output is written;
7. the input of a tool is shown as it grows;
8. a message announces tools or brings their results.

What is tracked never depends on how a call ended.
-/

namespace AgentConsole

namespace Stage

variable {World : Type} (d : Display World)

/-! ## The thinking indicator -/

/-- Stops the indicator, if there is one, and lets go of it. -/
def dropIndicator (s : Stage World) : Stage World :=
  match s.presenter.indicator with
  | none => s
  | some n => { (s.tolerate d (.indicator n .stop)).2 with
      presenter := { s.presenter with indicator := none } }

/-- Shows an indicator instead of the one before; it is held only once it has started. -/
def showIndicator (console : Console) (s : Stage World) : Stage World :=
  let (n, s) := (s.dropIndicator d).openDisplay d (.openIndicator · console)
  let (started, s) := s.tolerate d (.indicator n (.start "retrieving memories..."))
  if started then { s with presenter := { s.presenter with indicator := some n } } else s

/-- Has the indicator say that the model thinks. -/
def updateIndicator (s : Stage World) : Stage World :=
  match s.presenter.indicator with
  | none => s
  | some n => (s.tolerate d (.indicator n (.update "thinking..."))).2

/-- The first two steps. -/
def cycleIndicator (c : Callback) (s : Stage World) : Stage World :=
  let s := if c.output?.isSome || c.concernsTool then s.dropIndicator d else s
  let s := if c.initLoop then s.showIndicator d (c.console.getD .stdout) else s
  if c.startLoop then s.updateIndicator d else s

/-! ## Plain text and stops -/

/-- Writes reasoning. -/
def writeReasoning (c : Callback) (s : Stage World) : Stage World :=
  match c.reasoning? with
  | some text => s.render d .reasoning (.stream .reasoning text false)
  | none => s

/-- Stops the spinner, but keeps it. -/
def stopSpinner (s : Stage World) : Stage World :=
  match s.presenter.spinner with
  | some n => s.render d .spinnerStop (.spinner n .stop)
  | none => s

/-- Writes the notice of a throttled loop, where the callback names a console for it. -/
def writeThrottle (c : Callback) (s : Stage World) : Stage World :=
  match c.throttle?, c.console with
  | some delay, some console =>
    (s.stopSpinner d).render d .throttleNotice (.throttle console delay)
  | _, _ => s

/-- Stops what is live.  The spinner is kept for the result of its tool. -/
def forceStop (s : Stage World) : Stage World :=
  match s.presenter.indicator with
  | none => s.stopSpinner d
  | some n =>
    stopSpinner d { s.render d .indicatorStop (.indicator n .stop) with
      presenter := { s.presenter with indicator := none } }

/-- Writes output. -/
def writeOutput (c : Callback) (s : Stage World) : Stage World :=
  match c.output? with
  | some text => s.render d .output (.stream .output text c.complete)
  | none => s

/-! ## The input of tools -/

/-- Turns to another tool: its spinner replaces the one before, and it is tracked from now on. -/
def switchTool (now : Nat) (id : ToolId) (name : String) (s : Stage World) : Stage World :=
  let (n, s) := (s.stopSpinner d).openDisplay d .openSpinner
  let s := s.render d .spinnerStart (.spinner n (.start (preparingLabel name)))
  remark (.tracking name id) { s with
    presenter := { s.presenter with
      spinner := some n
      current := some id
      tools := s.presenter.tools.insert id (.start name now) } }

/-- Takes note of the input of a tracked tool, and shows it if it is the largest so far. -/
def observeInput (id : ToolId) (size : Nat) (s : Stage World) : Stage World :=
  match s.presenter.tools.find? id with
  | none => s
  | some i =>
    let (grown, i) := i.observe size
    if grown then
      let s := { s with
        presenter := { s.presenter with tools := s.presenter.tools.insert id i } }
      match s.presenter.spinner with
      | some n => s.render d .spinnerUpdate (.spinner n (.update i.progressLabel))
      | none => s
    else s

/-- Follows the input of a tool. -/
def trackInput (now : Nat) (u : ToolUpdate) (s : Stage World) : Stage World :=
  if u.hasInput then
    match u.id, u.name with
    | some id, some name =>
      let s := if s.presenter.current = some id then s else s.switchTool d now id name
      s.observeInput d id u.size
    | _, _ => s.remark .incompleteUpdate
  else s

/-- The seventh step. -/
def followTool (now : Nat) (c : Callback) (s : Stage World) : Stage World :=
  match c.tool with
  | some (.valid u) => s.trackInput d now u
  | some (.malformed raw) => s.remark (.malformedTool raw)
  | none => s

/-! ## Messages -/

/-- Announces a tool that the assistant asks for, on the spinner at hand. -/
def announce (s : Stage World) (call : ToolCall) : Stage World :=
  match call.name with
  | none => s.remark .namelessCall
  | some name =>
    match s.presenter.spinner with
    | some n => s.render d .spinnerInfo (.spinner n (.info (startingLabel name)))
    | none => s

/-- The last act of a spinner. -/
def finalAct (ending : Ending) (summary : String) : SpinnerAct :=
  match ending with
  | .succeeded => .succeed summary
  | .failed => .fail summary

/-- Shows how a tracked tool ended, on the spinner at hand, and lets go of that. -/
def conclude (now : Nat) (id : ToolId) (i : Invocation) (ending : Ending) (s : Stage World) :
    Stage World :=
  let summary := ending.message i.name (secondsOf (i.elapsed now))
  let s := match s.presenter.spinner with
    | some n => s.render d .spinnerResult (.spinner n (finalAct ending summary))
    | none => s
  let s := if s.presenter.notifies then (s.call d (.notify i.name summary)).2 else s
  { s with presenter := { s.presenter with
      spinner := none
      current := none
      tools := s.presenter.tools.erase id } }

/-- Takes the result of a tool. -/
def resolve (now : Nat) (s : Stage World) (r : ToolResult) : Stage World :=
  match r.id with
  | none => s.remark .anonymousResult
  | some id =>
    match s.presenter.tools.find? id with
    | none => s.remark (.untracked id)
    | some i => s.conclude d now id i (.ofResult r)

/-- Takes a message. -/
def takeMessage (now : Nat) (m : Message) (s : Stage World) : Stage World :=
  match m.role with
  | .assistant => m.calls.foldl (announce d) s
  | .user => m.results.foldl (resolve d now) s
  | .other => s

/-- The eighth step. -/
def followMessage (now : Nat) (c : Callback) (s : Stage World) : Stage World :=
  match c.message with
  | some (.valid m) => s.takeMessage d now m
  | some (.malformed raw) => s.remark (.malformedMessage raw)
  | none => s

/-! ## Callbacks -/

/-- Handles a callback at the given time. -/
def handle (now : Nat) (c : Callback) (s : Stage World) : Stage World :=
  let s := s.cycleIndicator d c
  let s := s.writeReasoning d c
  let s := s.writeThrottle d c
  let s := if c.forceStop then s.forceStop d else s
  let s := s.writeOutput d c
  let s := s.followTool d now c
  s.followMessage d now c

end Stage

/-- A callback and the time at which it is delivered. -/
structure Delivery where
  time : Nat
  callback : Callback

/-- Handles callbacks one after the other. -/
def Stage.run {World : Type} (d : Display World) (deliveries : List Delivery) (s : Stage World) :
    Stage World :=
  deliveries.foldl (fun s x ↦ s.handle d x.time x.callback) s

end AgentConsole
