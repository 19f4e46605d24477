import AgentConsole.Callback.Source
import AgentConsole.Presenter.Handle
import AgentConsole.Program.Basic
import AgentConsole.Terminal.Basic
import AgentConsole.Terminal.Panel

/-!
# Replaying a session

The callbacks of a recorded session are shown by a presenter one after the other.  At its end
everything live is stopped and the program takes its leave; a session that cannot be read to its end
just breaks off.  The clock of a replay advances by the pauses alone.
-/

namespace AgentConsole.Replay

/-- How a session is replayed. -/
structure Manner where
  options : DisplayOptions
  /-- Whether escape sequences are written at all. -/
  ansi : Bool
  /-- The milliseconds after each callback. -/
  pace : Nat

/-- A presenter on a fresh terminal. -/
def start (m : Manner) : Stage Terminal :=
  Stage.enter (.new m.options.notifies) 0 (Terminal.new m.options.color m.ansi false)

/-- The time after so many callbacks, in nanoseconds. -/
def timeAfter (m : Manner) (callbacks : Nat) : Nat :=
  callbacks * m.pace * 1000000

/-- Handles a callback and takes the output. -/
def deliver (m : Manner) (count : Nat) (c : Callback) (s : Stage Terminal) :
    (String × String) × Stage Terminal :=
  let s := s.handle Terminal.display (timeAfter m count) c
  let (output, terminal) := s.world.take
  (output, { s with world := terminal })

/-- The callback that ends a replay. -/
def lastCallback : Callback := { Callback.empty with forceStop := true }

/-- The words that end a replay. -/
def farewell (m : Manner) : String :=
  "\n" ++ Panel.goodbye.render (m.options.color && m.ansi) ++ "\n"

/-- How a replay has gone. -/
structure Course where
  pieces : List Piece
  /-- Why it has broken off. -/
  error : Option ProgramError
  /-- The presenter and its terminal after the last callback. -/
  stage : Stage Terminal

/-- Replays what is still to come after so many callbacks. -/
def proceed (m : Manner) (count : Nat) (s : Stage Terminal) :
    List CallbackSource.Reading → Course
  | [] => { pieces := [], error := none, stage := s }
  | reading :: rest =>
    match reading.result with
    | .callback c =>
      let (output, s) := deliver m count c s
      let course := proceed m (count + 1) s rest
      { course with pieces := ⟨output.1, output.2, m.pace⟩ :: course.pieces }
    | .finished =>
      let (output, s) := deliver m count lastCallback s
      { pieces := [⟨output.1 ++ farewell m, output.2, 0⟩], error := none, stage := s }
    | .invalid => { pieces := [], error := some (.callbacks .invalidData), stage := s }

/-- Replays a session. -/
def run (m : Manner) (session : Bytes) : Course :=
  proceed m 0 (start m) (CallbackSource.ofBytes session).readings

/-- Whether a path stands for the standard input. -/
def isInput (path : String) : Bool :=
  match Path.components path with
  | "-" :: rest => rest.all Path.stays
  | _ => false

/-- Replays a recorded session from a file or the standard input. -/
def runFile (m : Manner) (s : Surroundings) (path : String) : Run :=
  let session := if isInput path then s.input else s.disk.read path
  match session with
  | .error e => .fail (.callbacks e) s.disk
  | .ok bytes =>
    let course := run m bytes
    { pieces := course.pieces, error := course.error, disk := s.disk }

end AgentConsole.Replay
