import MeshNet.Format.Receive
import MeshNet.Node.Handler

/-!
# From a received frame to its handler

`handle_request` reads the length byte and then as many bytes as it announces, and passes them
on when all have come. Which handler is run is decided by who sent the frame and by its
request. A request byte outside the enumeration also raises `SIGTERM`; the process then stops
serving after the current round, so that it handles some of the later frames or none of them.
-/

namespace MeshNet
open Library

variable (z : Zlib) (env : Env) (n : Node)

/-- `handle_server` of the node. -/
def nodeHandleServer (parsed : Parsed) : Bool × Node :=
  match parsed.req, parsed.payload with
  | .known .ping, _ => handlePing env n
  | .known .send, some (.packet p) => handleServerSend z env n .send p
  | .known .reset, _ => (true, handleReset n)
  | .known .unicast, some (.packet p) => (true, handleServerUnicast z env n p)
  | .known .broadcast, some (.packet p) => (true, handleBroadcast z env n p)
  | _, _ => (false, n)

/-- `handle_node` of the node. -/
def nodeHandleNode (parsed : Parsed) : Bool × Node :=
  match parsed.req, parsed.payload with
  | .known .send, some (.packet p) => handleNodeSend z env n p
  | .known .routeDirect, some (.packet p) => handleNodeRouteDirect z env n p
  | .known .routeInverse, some (.packet p) => handleNodeRouteInverse env n p
  | .known .unicastContest, some (.contest c) => (true, handleUnicastContest env n c)
  | .known .unicastFirst, some (.contest c) => (true, handleUnicastFirst env n c)
  | _, _ => (false, n)

def nodeListenerHandle (sender : Packed RequestSender) (parsed : Parsed) : Bool × Node :=
  match sender with
  | .known .server => nodeHandleServer z env n parsed
  | .known .node => nodeHandleNode z env n parsed
  | _ => (false, n)

/-- `handle_request` of the node. What the handler returns is not passed on. -/
def nodeHandleRequest (bytes : List UInt8) : Bool × Node :=
  match receive env.heap env.stack bytes with
  | some incoming => (true, (nodeListenerHandle z env n incoming.sender incoming.parsed).2)
  | none => (false, n)

end MeshNet
