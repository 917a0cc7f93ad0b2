import MeshNet.Library.Words
import MeshNet.Settings
import MeshNet.Crc
import MeshNet.Format.Types
import MeshNet.Format.Create
import MeshNet.Library.Walk
import MeshNet.Format.Parse
import MeshNet.Format.RoundTrip
import MeshNet.Format.Bounds
import MeshNet.Format.Buffers
import MeshNet.Format.Receive
import MeshNet.Format.Canonical
import MeshNet.Routing
import MeshNet.Node.Messages
import MeshNet.Node.App
import MeshNet.Node.Grid
import MeshNet.Node.Neighbours
import MeshNet.Node.Essentials
import MeshNet.Node.Handler
import MeshNet.Node.Listener
import MeshNet.Library.Run
import MeshNet.Node.Emissions
import MeshNet.Node.Direct
import MeshNet.Node.Copies
import MeshNet.Node.Run
import MeshNet.Node.Fresh
import MeshNet.Node.Reset
import MeshNet.Server.Clients
import MeshNet.Server.Handler
import MeshNet.Server.Listener
import MeshNet.Server.Serving
import MeshNet.Server.Answers
import MeshNet.Mesh.Journey
import MeshNet.Node.Healthy
import MeshNet.Mesh.Protocol
import MeshNet.Mesh.System
import MeshNet.Mesh.Simulation
import MeshNet.Mesh.Refinement
import MeshNet.Server.Replies
import MeshNet.Server.Processes
import MeshNet.Format.Stream
import MeshNet.Mesh.Malformed
import MeshNet.Node.Slots
import MeshNet.Mesh.Wire
import MeshNet.Mesh.Network
import MeshNet.Mesh.Frames
import MeshNet.Mesh.Settled
import MeshNet.Node.Unicast
import MeshNet.Node.Notices
import MeshNet.Mesh.Reports
import MeshNet.Node.Flags
import MeshNet.Mesh.Epochs
import MeshNet.Library.Routes
import MeshNet.Mesh.Routes
import MeshNet.Mesh.Loops
import MeshNet.Mesh.Flood
import MeshNet.Server.Results
import MeshNet.Node.Hops
import MeshNet.Node.Acknowledge
import MeshNet.Node.Shortest
import MeshNet.Node.Cache
import MeshNet.Mesh.Inverse
import MeshNet.Mesh.Finite
import MeshNet.Polling
import MeshNet.Mesh.Distance
import MeshNet.Mesh.Echo
import MeshNet.Mesh.Rest
import MeshNet.Mesh.Arrival
import MeshNet.Library.Register
import MeshNet.Checksum
import MeshNet.PollArray
import MeshNet.Format.Leftover
import MeshNet.Library.Scan
import MeshNet.Client.Arguments
import MeshNet.Client.Options
import MeshNet.Client.Message
import MeshNet.Client.Commands
import MeshNet.Client.Payloads
import MeshNet.Library.Channels
import MeshNet.Library.Fair
import MeshNet.Node.Room
import MeshNet.Mesh.Service
import MeshNet.Mesh.Casts
import MeshNet.Mesh.Contest
import MeshNet.Mesh.Once
import MeshNet.Mesh.Calls
import MeshNet.Mesh.Offering
import MeshNet.Mesh.Issued
import MeshNet.Mesh.Endings
import MeshNet.Mesh.Delivery
import MeshNet.Detection
import MeshNet.Server.Tally
import MeshNet.Server.Owing
import MeshNet.Mesh.Boot
import MeshNet.Mesh.Told
import MeshNet.Mesh.Traffic
import MeshNet.Server.Shutdown
import MeshNet.Client.Program
import MeshNet.Mesh.Authentic
import MeshNet.Mesh.Typed
import MeshNet.Mesh.Exits
