import AgentConsole.Main
import AgentConsole.Proofs.Presenter.Conclusion
import AgentConsole.Proofs.Presenter.Entry
import AgentConsole.Proofs.Presenter.Exclusion
import AgentConsole.Proofs.Presenter.IndicatorTrace
import AgentConsole.Proofs.Presenter.Matching
import AgentConsole.Proofs.Presenter.Outcomes
import AgentConsole.Proofs.Presenter.SpinnerTrace
import AgentConsole.Proofs.Terminal.ForceStop
import AgentConsole.Proofs.Terminal.Sharing
import AgentConsole.Proofs.Terminal.Slot
import AgentConsole.Proofs.Terminal.Transcript
import AgentConsole.Proofs.Callback.Source
import AgentConsole.Proofs.Json.Normal
import AgentConsole.Proofs.Json.Reread
import AgentConsole.Proofs.Json.Number
import AgentConsole.Proofs.Json.Record
import AgentConsole.Proofs.Json.Shape
import AgentConsole.Proofs.Chat.Shape
import AgentConsole.Proofs.Json.Rewriting
import AgentConsole.Proofs.Chat.Rewriting
import AgentConsole.Proofs.Callback.Rewriting
import AgentConsole.Proofs.Callback.RoundTrip
import AgentConsole.Proofs.Json.Insertion
import AgentConsole.Proofs.Callback.Isolation
import AgentConsole.Proofs.Disk.Contents
import AgentConsole.Proofs.Knowledge.Archive
import AgentConsole.Proofs.Knowledge.Separation
import AgentConsole.Proofs.Knowledge.Validity
import AgentConsole.Proofs.Knowledge.Requests
import AgentConsole.Proofs.Program.Precedence
import AgentConsole.Proofs.Knowledge.Handover
import AgentConsole.Proofs.Presenter.Turn
import AgentConsole.Proofs.Presenter.Progress
import AgentConsole.Proofs.Presenter.Malformed
import AgentConsole.Proofs.Presenter.Message
import AgentConsole.Proofs.Knowledge.Reply
import AgentConsole.Proofs.Terminal.Panel
import AgentConsole.Proofs.Json.Object
import AgentConsole.Proofs.Callback.Members
import AgentConsole.Proofs.Terminal.Strip
import AgentConsole.Proofs.Presenter.View
import AgentConsole.Proofs.Presenter.Texts
import AgentConsole.Proofs.Terminal.Color
import AgentConsole.Proofs.Knowledge.Containment
import AgentConsole.Proofs.Welcome.Register
import AgentConsole.Proofs.Settings.Fields
import AgentConsole.Proofs.Settings.Layers
