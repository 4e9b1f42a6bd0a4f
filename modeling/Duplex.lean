import Duplex.Carrier.Basic
import Duplex.Carrier.ResponseStream
import Duplex.CommandLine
import Duplex.Frame.Basic
import Duplex.Frame.Payload
import Duplex.Http.Date
import Duplex.Http.Head
import Duplex.Http.Header
import Duplex.Http.Message
import Duplex.Http.Policy
import Duplex.Http.Target
import Duplex.Json.Basic
import Duplex.Json.Double
import Duplex.Json.Merge
import Duplex.Json.Quoted
import Duplex.Json.Reader
import Duplex.Json.Record
import Duplex.Json.Token
import Duplex.Json.Tree
import Duplex.Json.Writer
import Duplex.Main
import Duplex.Moment
import Duplex.Net.Endpoint
import Duplex.Net.Ipv4
import Duplex.Net.Ipv6
import Duplex.Net.Loose
import Duplex.Options
import Duplex.Program
import Duplex.Proofs.Session.Deed
import Duplex.Proofs.Session.Handing
import Duplex.Refusal
import Duplex.Rehearsal.Listening
import Duplex.Rehearsal.Log
import Duplex.Rehearsal.Probe
import Duplex.Rehearsal.Registry
import Duplex.Rehearsal.Script
import Duplex.Rehearsal.Server
import Duplex.Rehearsal.Session
import Duplex.Server.Basic
import Duplex.Server.Clock
import Duplex.Server.Link
import Duplex.Server.Mount
import Duplex.Server.Route
import Duplex.Server.Template
import Duplex.Session.Basic
import Duplex.Settings.Basic
import Duplex.Settings.Layers
import Duplex.Telemetry
import Duplex.Text.Blank
import Duplex.Text.Decimal
import Duplex.Text.Extending
import Duplex.Text.Invisible
import Duplex.Text.Percent
import Duplex.Text.Shown
import Duplex.Text.Utf8
import Duplex.World.Basic
import Duplex.World.Clock
import Duplex.World.Shutdown
import Duplex.Proofs.World.Run
import Duplex.Proofs.World.Sockets
import Duplex.Proofs.Session.Stages
import Duplex.Proofs.Session.Language
import Duplex.Proofs.Session.Inbound
import Duplex.Proofs.Frame.Readback
import Duplex.Proofs.Frame.Grammar
import Duplex.Proofs.Json.Tokens
import Duplex.Proofs.Frame.Encoding
import Duplex.Proofs.Carrier.Body
import Duplex.Proofs.Session.Ledger
import Duplex.Proofs.Session.Delivery
import Duplex.Proofs.Session.Closed
import Duplex.Proofs.Session.Dealings
import Duplex.Proofs.Session.Succession
import Duplex.Proofs.Session.Farewell
import Duplex.Proofs.World.Registered
import Duplex.Proofs.World.Closing
import Duplex.Proofs.Server.Answers
import Duplex.Proofs.World.Entries
import Duplex.Proofs.World.Ending
import Duplex.Proofs.World.Order
import Duplex.Proofs.World.Stopping
import Duplex.Proofs.Session.Clocks
import Duplex.Proofs.World.Rest
import Duplex.Proofs.Session.Plain
import Duplex.Proofs.World.Apart
import Duplex.Proofs.World.Shadow
import Duplex.Proofs.World.Script
import Duplex.Proofs.World.Undisturbed
import Duplex.Proofs.Json.Records
import Duplex.Proofs.Json.Paths
import Duplex.Proofs.Settings.Layering
import Duplex.Proofs.World.Timely
import Duplex.Proofs.Session.Chronicle
import Duplex.Proofs.Session.Heartbeats
import Duplex.Proofs.Session.Patience
import Duplex.Proofs.Server.Line
import Duplex.Proofs.Server.Acts
import Duplex.Proofs.Server.Ties
import Duplex.Proofs.Server.Hearing
import Duplex.Proofs.Server.Attending
import Duplex.Proofs.Server.Following
import Duplex.Proofs.Server.Resting
import Duplex.Proofs.Server.Conversation
import Duplex.Proofs.Server.Ticking
import Duplex.Proofs.Frame.Literal
import Duplex.Proofs.Carrier.Budget
import Duplex.Proofs.Session.Loss
import Duplex.Proofs.World.Stack
import Duplex.Proofs.Session.Nesting
import Duplex.Proofs.Text.Utf8
import Duplex.Proofs.Text.Forms
import Duplex.Proofs.Server.Posting
import Duplex.Proofs.Server.Garbled
import Duplex.Proofs.Session.Allowance
import Duplex.Proofs.World.Lone
import Duplex.Proofs.World.Advancing
import Duplex.Proofs.Text.Numerals
import Duplex.Proofs.Settings.Environment
import Duplex.Proofs.Settings.Nulls
import Duplex.Proofs.Server.Mounts
import Duplex.Proofs.Server.Routes
import Duplex.Proofs.Text.Pieces
import Duplex.Proofs.Text.Places
import Duplex.Proofs.Http.Cookies
import Duplex.Proofs.World.Departed
import Duplex.Proofs.Net.Addresses
import Duplex.Proofs.Net.Endpoints
import Duplex.Proofs.Json.Trees
import Duplex.Proofs.Json.Forms
import Duplex.Proofs.Settings.Written
