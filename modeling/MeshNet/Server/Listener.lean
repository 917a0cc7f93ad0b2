import MeshNet.Format.Receive
import MeshNet.Server.Handler

/-!
# What the server does with a request

`handle_request` of the server reads one frame and passes it to the listener, which numbers the
messages of the clients, takes their checksums and remembers who waits for which number.
-/

namespace MeshNet

/-- The state of the server process. -/
structure Server where
  clientFd : Int
  children : List Child
  clients : Clients
  appMsgId : UInt16
  trace : ServerTrace

namespace Server

/-- The state in which `main` starts to serve when every `fork` has succeeded, with the numbers of
the processes. -/
def start (pids : List Int32) : Server where
  clientFd := -1
  children := pids.map fun pid => ⟨pid, -1, 255, 65535⟩
  clients := .init
  appMsgId := 0
  trace := []

variable (env : ServerEnv) (s : Server)

/-- The payload under the number the server gives it, with its checksum. -/
def stamp (id : UInt16) (packet : NodePacket) : NodePacket :=
  let a := { packet.appPayload with id := id }
  { packet with appPayload := { a with crc := appCrc a } }

/-- Number a message and remember who sent it. -/
def register : Server :=
  { s with
    appMsgId := s.appMsgId + 1
    clients := s.clients.setClient s.appMsgId s.clientFd }

def handleClientRequest (parsed : Parsed) : Bool × Server :=
  match parsed.req, parsed.payload with
  | .known .send, some (.packet p) =>
    let r := handleClientSend env s.trace s.children (stamp s.appMsgId p)
    (r.1, { s.register with trace := r.2 })
  | .known .ping, some (.addr addr) =>
    let r := handlePing env s.trace s.children s.clientFd addr
    (r.1, { s with trace := r.2 })
  | .known .killNode, some (.addr addr) =>
    let r := handleKill env s.trace s.children addr s.clientFd
    (r.1, { s with children := r.2.1, trace := r.2.2 })
  | .known .reset, _ =>
    let r := handleReset env s.trace s.children s.clientFd
    (r.1, { s with appMsgId := 0, children := r.2.1, trace := r.2.2 })
  | .known .reviveNode, some (.addr addr) =>
    let r := handleRevive env addr s.clientFd env.res s.trace s.children
    (r.1, { s with children := r.2.1, trace := r.2.2 })
  | .known .broadcast, some (.packet p) =>
    let r := handleBroadcast env s.trace s.children (stamp s.appMsgId p) .broadcast
    (r.1, { s.register with trace := r.2 })
  | .known .unicast, some (.packet p) =>
    let r := handleBroadcast env s.trace s.children (stamp s.appMsgId p) .unicast
    (r.1, { s.register with trace := r.2 })
  | _, _ => (false, s)

def handleNodeRequest (parsed : Parsed) : Bool × Server :=
  match parsed.req, parsed.payload with
  | .known .update, some (.update update) =>
    let r := handleUpdateChild env s.trace update s.children
    (true, { s with children := r.1, trace := r.2 })
  | .known .notify, some (.notify notify) =>
    let found := s.clients.getClientFdById notify.appMsgId
    let r := handleNotify env s.trace found.1 notify
    (r.1, { s with clients := found.2, trace := r.2 })
  | _, _ => (false, s)

/-- `server_listener_handle`. -/
def listenerHandle (incoming : Incoming) (connFd : Int) : Bool × Server :=
  match incoming.sender with
  | .known .client => handleClientRequest env { s with clientFd := connFd } incoming.parsed
  | .known .node => handleNodeRequest env s incoming.parsed
  | _ => (false, s)

/-- `handle_request` of the server: the result says whether the connection is to stay open. -/
def handleRequest (connFd : Int) (bytes : List UInt8) : Bool × Server :=
  match receive env.heap env.stack bytes with
  | some incoming => s.listenerHandle env incoming connFd
  | none => (false, s)

end Server

end MeshNet
