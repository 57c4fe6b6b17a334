import TopicRelay.Main
import TopicRelay.Bus.Local
import TopicRelay.Double
import TopicRelay.Text.Letter
import TopicRelay.Proofs.Chunked.Run
import TopicRelay.Proofs.Chunked.Grammar
import TopicRelay.Proofs.Chunked.Acceptance
import TopicRelay.Proofs.Chunked.Slices
import TopicRelay.Proofs.Chunked.Limit
import TopicRelay.Proofs.Chunked.Counters
import TopicRelay.Proofs.Chunked.Words
import TopicRelay.Proofs.Chunked.Stream
import TopicRelay.Proofs.Header.Fields
import TopicRelay.Proofs.Header.Block
import TopicRelay.Proofs.Framing.MessageEnd
import TopicRelay.Proofs.Framing.Split
import TopicRelay.Proofs.Exchange.History
import TopicRelay.Proofs.Exchange.Conversation
import TopicRelay.Proofs.Exchange.Reply
import TopicRelay.Proofs.Exchange.Turn
import TopicRelay.Proofs.Dispatch.Session
import TopicRelay.Proofs.Dispatch.Reply
import TopicRelay.Proofs.Dispatch.Slots
import TopicRelay.Proofs.Dispatch.Resources
import TopicRelay.Proofs.Exchange.Time
import TopicRelay.Proofs.Deadline
import TopicRelay.Proofs.Exchange.Waiting
import TopicRelay.Proofs.Dispatch.Polling
import TopicRelay.Proofs.Dispatch.Time
import TopicRelay.Proofs.Dispatch.Counting
import TopicRelay.Proofs.Dispatch.Deadline
import TopicRelay.Proofs.Exchange.Reading
import TopicRelay.Proofs.Dispatch.Reading
import TopicRelay.Proofs.Dispatch.Fidelity
import TopicRelay.Proofs.Bus.Intake
import TopicRelay.Proofs.Framing.Limit
import TopicRelay.Proofs.Framing.Invariant
import TopicRelay.Proofs.Bus.Representation
import TopicRelay.Proofs.Bus.Wire
import TopicRelay.Proofs.Exchange.Isolation
import TopicRelay.Proofs.Dispatch.Isolation
import TopicRelay.Proofs.Exchange.Sending
import TopicRelay.Proofs.Dispatch.Routing
import TopicRelay.Proofs.Relay.Session
import TopicRelay.Proofs.Relay.Drain
import TopicRelay.Proofs.Relay.Stream
import TopicRelay.Proofs.Bus.Stream
import TopicRelay.Proofs.Bus.Line
import TopicRelay.Proofs.Publisher
import TopicRelay.Proofs.Tracker
import TopicRelay.Proofs.Shutdown
import TopicRelay.Proofs.Header.Signals
import TopicRelay.Proofs.PortMap
import TopicRelay.Proofs.RouteTable
import TopicRelay.Proofs.Text.Trim
import TopicRelay.Proofs.Config.Validity
import TopicRelay.Proofs.CommandLine.Flags
import TopicRelay.Proofs.CommandLine.Layering
import TopicRelay.Proofs.CommandLine.Admission
