import MockAmqp.Lib.OrderedDict
import MockAmqp.Lib.Exec
import MockAmqp.Lib.Runs
import MockAmqp.Lib.Framing
import MockAmqp.Values
import MockAmqp.Serialization
import MockAmqp.Method
import MockAmqp.Sender
import MockAmqp.State
import MockAmqp.Broker
import MockAmqp.Protocol
import MockAmqp.Footprint
import MockAmqp.Server
import MockAmqp.Publish
import MockAmqp.Integrity
import MockAmqp.Delivery
import MockAmqp.Consumers
import MockAmqp.Access
import MockAmqp.Lib.Assembly
import MockAmqp.Reassembly
import MockAmqp.Segmentation
import MockAmqp.Frames
import MockAmqp.Json
import MockAmqp.Operations
import MockAmqp.Routing
import MockAmqp.Handshake
import MockAmqp.Acknowledgements
import MockAmqp.Independence
import MockAmqp.Wire
import MockAmqp.Answers
import MockAmqp.Closing
import MockAmqp.Http
import MockAmqp.Handlers
import MockAmqp.EventLoop
import MockAmqp.Sessions
import MockAmqp.Responses
import MockAmqp.Posts
import MockAmqp.Publications
import MockAmqp.Text
import MockAmqp.Prefixes
import MockAmqp.Reader
import MockAmqp.Tables
import MockAmqp.Formats
import MockAmqp.Lib.Flags
import MockAmqp.ContentHeader
import MockAmqp.Arguments
import MockAmqp.Acceptance
import MockAmqp.Mechanisms
import MockAmqp.Replies
import MockAmqp.Raising
import MockAmqp.Pausing
import MockAmqp.Splits
import MockAmqp.Inspection
import MockAmqp.ShortStrings
import MockAmqp.Finishing
import MockAmqp.Progress
import MockAmqp.Waiting
import MockAmqp.Serving
import MockAmqp.ReplyChannels
import MockAmqp.FrameMax
import MockAmqp.Refusals
import MockAmqp.Dumping
import MockAmqp.Fidelity
import MockAmqp.Output
import MockAmqp.Input
import MockAmqp.Lib.Lockstep
import MockAmqp.Oblivious
import MockAmqp.Iteration
import MockAmqp.GenericContent
import MockAmqp.Lib.Script
import MockAmqp.Clients
import MockAmqp.Login
import MockAmqp.Uploads
import MockAmqp.Isolation
import MockAmqp.Lib.Polling
import MockAmqp.Service
import MockAmqp.Asking
import MockAmqp.Reports
import MockAmqp.Watching
