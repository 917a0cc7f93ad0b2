import MeshNet.Mesh.Protocol
import MeshNet.Node.Run
import MeshNet.Server.Listener
import Mathlib.Logic.Embedding.Basic

/-!
# The mesh

The server, the nodes and the connections between them. Each connection delivers the frames that
were written to it one by one in their order; which connection delivers next is not determined.
-/

namespace MeshNet
open Library

/-- Who listens on the port. -/
def peerOf (port : UInt16) : Peer := if port = serverPort then .server else .node (nodeAddr port)

structure Mesh where
  server : Server
  node : UInt8 → Node
  wire : Peer → Peer → List (Flight (List UInt8))

/-- The frames that were written, and to whom. -/
def sentFrames (es : List Event) : List (Peer × List UInt8) :=
  es.filterMap fun
    | .send port bytes true => some (peerOf port, bytes)
    | _ => none

/-- The node at the other end of a descriptor of the server. -/
def Server.childAt (s : Server) (fd : Int) : Option UInt8 :=
  (s.children.find? fun child => child.writeFd == fd).map Child.addr

/-- The frames that the server has written to nodes. -/
def Server.sentFrames (s : Server) (es : ServerTrace) : List (Peer × List UInt8) :=
  es.filterMap fun
    | .write fd bytes true => (s.childAt fd).map fun addr => (.node addr, bytes)
    | _ => none

namespace Mesh

/-- The server has been told by all nodes where they are, and nothing was sent yet. Its processes
have the numbers `pids` and it is connected to them by the descriptors `fds`; the next message
gets the number `id`. -/
def start (pids : UInt8 → Int32) (fds : UInt8 ↪ Int) (id : UInt16) : Mesh where
  server := { Server.start [] with
    children := (List.range nodeCount).map fun i =>
      ⟨pids (UInt8.ofNat i), fds (UInt8.ofNat i), UInt8.ofNat i, nodePort (UInt8.ofNat i)⟩
    appMsgId := id }
  node := Node.start
  wire _ _ := []

/-- A client asks the server on descriptor `fd` to send a message, or the connection from `src`
to `dst` delivers. -/
inductive Label where
  | client (fd : Int) (packet : NodePacket) (env : ServerEnv)
  | deliver (src dst : Peer) (env : Env) (senv : ServerEnv)

/-- Messages fit their arrays, and every connection comes about and every write succeeds. -/
def Label.Healthy : Label → Prop
  | .client _ packet env => packet.appPayload.Fits ∧ ∀ n fd, env.write n fd = true
  | .deliver _ _ env _ => env.net.Healthy

/-- Put frames on the connections of `src`. -/
def emit (src : Peer) (hops : Nat) (out : List (Peer × List UInt8))
    (wire : Peer → Peer → List (Flight (List UInt8))) : Peer → Peer → List (Flight (List UInt8)) :=
  fun a b =>
    if a = src then
      wire a b ++ out.filterMap fun o => if o.1 = b then some ⟨o.2, hops⟩ else none
    else wire a b

/-- Take the first frame off a connection. -/
def pop (src dst : Peer) (wire : Peer → Peer → List (Flight (List UInt8))) :
    Peer → Peer → List (Flight (List UInt8)) :=
  fun a b => if a = src ∧ b = dst then (wire a b).tail else wire a b

def step (z : Zlib) (m : Mesh) : Label → Mesh
  | .client fd packet env =>
    let server := ({ m.server with clientFd := fd }.handleClientRequest env
      ⟨.known .send, some (.packet packet), false⟩).2
    { m with
      server := server
      wire := emit .server 0
        (server.sentFrames (server.trace.drop m.server.trace.length)) m.wire }
  | .deliver src dst env senv =>
    match m.wire src dst, dst with
    | [], _ => m
    | f :: _, .server =>
      -- The descriptor of a node's connection plays no part in a notification.
      { m with
        server := (m.server.handleRequest senv 0 f.packet).2
        wire := pop src dst m.wire }
    | f :: _, .node addr =>
      let n := nodeStep z (m.node addr) (env, f.packet)
      { m with
        node := Function.update m.node addr n
        wire := emit dst (f.hops + 1)
          (MeshNet.sentFrames (n.link.trace.drop (m.node addr).link.trace.length))
          (pop src dst m.wire) }

end Mesh

end MeshNet
