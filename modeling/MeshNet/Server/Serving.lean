import MeshNet.Library.Run
import MeshNet.Server.Listener

/-!
# The poll loop of the server

`serving_poll` goes through the descriptors it waits for; it accepts new connections, has the
requests that have arrived handled and closes the connections whose requests fail. Beside the
process stands what the operating system knows: what is behind each descriptor. It may give a
new connection the number of any descriptor that is not open.
-/

namespace MeshNet
open Library

/-- The server process, with its descriptors. Everything that was ever opened has a number of
its own; `requested` says on which connection the last message with a given id arrived. -/
structure Serving where
  serverFd : Int
  pfds : List Int
  server : Server
  conns : Int → Option Nat
  made : Nat
  requested : UInt16 → Option Nat

/-- What `poll` finds ready and what comes of it: the place in `pfds`, the descriptor that
`accept` returns if this is the listening socket, and else what is received and how the
operating system behaves while it is handled. -/
structure Polled where
  index : Nat
  newfd : Int
  env : ServerEnv
  bytes : List UInt8

/-- The message that a client wants to be sent. -/
def Incoming.message? (incoming : Incoming) : Option NodePacket :=
  match incoming.sender, incoming.parsed.req, incoming.parsed.payload with
  | .known .client, .known .send, some (.packet p)
  | .known .client, .known .broadcast, some (.packet p)
  | .known .client, .known .unicast, some (.packet p) => some p
  | _, _, _ => none

def Polled.incoming? (x : Polled) : Option Incoming := receive x.env.heap x.env.stack x.bytes

namespace Serving

/-- The state after `serving_init`, with the listening socket. -/
def init (serverFd : Int) (pids : List Int32) : Serving where
  serverFd := serverFd
  pfds := [serverFd]
  server := .start pids
  conns fd := if fd = serverFd then some 0 else none
  made := 1
  requested _ := none

/-- What an event does to the descriptors. -/
def observe (w : Serving) : ServerEvent → Serving
  | .close fd => { w with conns := Function.update w.conns fd none }
  | .connect _ fd =>
    if fd = -1 then w
    else { w with conns := Function.update w.conns fd (some w.made), made := w.made + 1 }
  | _ => w

/-- `add_to_pfds` with a connection that was just made. -/
def addToPfds (w : Serving) (newfd : Int) : Serving :=
  { w with
    pfds := w.pfds ++ [newfd]
    conns := Function.update w.conns newfd (some w.made)
    made := w.made + 1 }

/-- Close the connection at place `i`, which `del_from_pfds` fills with the last one. -/
def closeAt (w : Serving) (i : Nat) (fd : Int) : Serving :=
  let w := { w with
    server := { w.server with trace := w.server.trace ++ [ServerEvent.close fd] }
    pfds := (w.pfds.set i (w.pfds.getLastD fd)).dropLast }
  w.observe (.close fd)

/-- What the process has done in the meantime. -/
def newEvents (w w' : Serving) : ServerTrace := w'.server.trace.drop w.server.trace.length

/-- Have a request handled that arrived on `fd`. -/
def handled (w : Serving) (fd : Int) (x : Polled) : Bool × Serving :=
  let r := w.server.handleRequest x.env fd x.bytes
  let w' := { w with
    server := r.2
    requested :=
      if (x.incoming?.bind Incoming.message?).isSome then
        Function.update w.requested w.server.appMsgId (w.conns fd)
      else w.requested }
  (r.1, (w.newEvents w').foldl observe w')

/-- The body of the loop of `serving_poll`, for a descriptor that is reported ready. What is
reported of a new connection before the next `poll` is what its slot of the array held before, so
that its turn may come in the round that has accepted it. -/
def pollAt (w : Serving) (x : Polled) : Serving :=
  match w.pfds[x.index]? with
  | none => w
  | some fd =>
    if fd = w.serverFd then if x.newfd = -1 then w else w.addToPfds x.newfd
    else
      let r := w.handled fd x
      if r.1 then r.2 else r.2.closeAt x.index fd

end Serving

end MeshNet
