import MeshNet.Format.Create
import MeshNet.Server.Clients

/-!
# The request handlers of the server

The server starts the nodes, keeps a connection to each of them and passes the requests of its
clients on to them. What the operating system does is a parameter, and everything the server
asks of it is recorded in a trace, the length of which numbers the attempts.
-/

namespace MeshNet

/-- `struct node`, what the server knows of a node process. -/
structure Child where
  pid : Int32
  writeFd : Int
  addr : UInt8
  port : UInt16
  deriving DecidableEq

inductive ServerEvent where
  | write (fd : Int) (bytes : List UInt8) (ok : Bool)
  | close (fd : Int)
  | connect (port : UInt16) (fd : Int)
  | fork (addr : UInt8) (pid : Int32)
  | kill (pid : Int32)
  deriving DecidableEq

abbrev ServerTrace := List ServerEvent

/-- What the handling of one request depends on besides the request: whether the `n`th attempt
to write to a descriptor succeeds, what `recv` returns and leaves in its buffer, which
descriptor a new connection has and which number a new process; and what uninitialised memory
holds. -/
structure ServerEnv where
  write : Nat → Int → Bool
  recv : Nat → Int × (Nat → UInt8)
  connect : Nat → UInt16 → Int
  fork : Nat → Int32
  heap : Message
  stack : Nat → UInt8
  res : Bool

/-- Every write succeeds, nothing is received and nothing is connected to. -/
def ServerEnv.quiet : ServerEnv :=
  ⟨fun _ _ => true, fun _ => (0, fun _ => 0), fun _ _ => -1, fun _ => 1, .zero, fun _ => 0, true⟩

namespace Server

variable (env : ServerEnv)

/-- `io_write_all`. -/
def ioWriteAll (tr : ServerTrace) (fd : Int) (bytes : List UInt8) : Bool × ServerTrace :=
  let ok := env.write tr.length fd
  (ok, tr ++ [.write fd bytes ok])

def sendResToClient (tr : ServerTrace) (clientFd : Int) (res : RequestResult) :
    Bool × ServerTrace :=
  ioWriteAll env tr clientFd [res.toByte]

/-! ## Requests of clients -/

/-- The number of bytes received is squeezed into a byte, so that an error counts as 255. -/
def handlePing (tr : ServerTrace) (children : List Child) (clientFd : Int) (addr : UInt8) :
    Bool × ServerTrace :=
  match children.find? fun child => child.addr == addr with
  | none => (true, tr)
  | some child =>
    if child.writeFd = -1 then sendResToClient env tr clientFd .err
    else
      let sent := ioWriteAll env tr child.writeFd ((createAddr .ping .server none).sent env.stack)
      if !sent.1 then sendResToClient env sent.2 clientFd .err
      else
        let answer := env.recv sent.2.length
        let received := UInt8.ofInt answer.1
        if received > 0 then
          ioWriteAll env sent.2 clientFd ((List.range received.toNat).map answer.2)
        else sendResToClient env sent.2 clientFd .err

/-- `kill_node`: the first child with the address. -/
def killNode (tr : ServerTrace) : List Child → UInt8 → Bool × List Child × ServerTrace
  | [], _ => (false, [], tr)
  | child :: rest, addr =>
    if child.addr = addr then
      (true, { child with writeFd := -1 } :: rest, tr ++ [.close child.writeFd, .kill child.pid])
    else
      let r := killNode tr rest addr
      (r.1, child :: r.2.1, r.2.2)

def handleKill (tr : ServerTrace) (children : List Child) (addr : UInt8) (clientFd : Int) :
    Bool × List Child × ServerTrace :=
  let killed := killNode tr children addr
  let sent := sendResToClient env killed.2.2 clientFd (if killed.1 then .ok else .err)
  (sent.1, killed.2.1, sent.2)

/-- `revivie_node`, in the parent process. -/
def reviveNode (tr : ServerTrace) (child : Child) : Child × ServerTrace :=
  let pid := env.fork tr.length
  ({ child with pid := pid }, tr ++ [.fork child.addr pid])

/-- The loop of `handle_reset` over the children. -/
def resetNodes (clientFd : Int) : ServerTrace → List Child → List Child × ServerTrace
  | tr, [] => ([], tr)
  | tr, child :: rest =>
    let one : Child × ServerTrace :=
      if child.writeFd ≠ -1 then
        let sent := ioWriteAll env tr child.writeFd
          ((createAddr .reset .server none).sent env.stack)
        (child, if sent.1 then sent.2 else (sendResToClient env sent.2 clientFd .unknown).2)
      else reviveNode env tr child
    let r := resetNodes clientFd one.2 rest
    (one.1 :: r.1, r.2)

def handleReset (tr : ServerTrace) (children : List Child) (clientFd : Int) :
    Bool × List Child × ServerTrace :=
  let reset := resetNodes env clientFd tr children
  let sent := sendResToClient env reset.2 clientFd .ok
  (sent.1, reset.1, sent.2)

/-- The loops of `make_send_to_node` and `handle_broadcast`, which stop at the first write that
fails. -/
def sendToNodes (addr : UInt8) (bytes : List UInt8) : ServerTrace → List Child → Bool × ServerTrace
  | tr, [] => (true, tr)
  | tr, child :: rest =>
    if child.addr = addr then
      let sent := ioWriteAll env tr child.writeFd bytes
      if !sent.1 then (false, sent.2) else sendToNodes addr bytes sent.2 rest
    else sendToNodes addr bytes tr rest

/-- The request that enters the mesh at its sender, with its checksum taken. -/
def handleClientSend (tr : ServerTrace) (children : List Child) (packet : NodePacket) :
    Bool × ServerTrace :=
  let packet := { packet with crc := packetCrc packet }
  sendToNodes env packet.senderAddr ((createPacket .send .server packet).sent env.stack) tr children

def handleBroadcast (tr : ServerTrace) (children : List Child) (packet : NodePacket)
    (cmd : Request) : Bool × ServerTrace :=
  sendToNodes env packet.senderAddr ((createPacket cmd .server packet).sent env.stack) tr children

/-- The result is that of the last child with the address, or not set where there is none. -/
def handleRevive (addr : UInt8) (clientFd : Int) :
    Bool → ServerTrace → List Child → Bool × List Child × ServerTrace
  | res, tr, [] => (res, [], tr)
  | res, tr, child :: rest =>
    if child.addr = addr then
      let one := if child.writeFd = -1 then reviveNode env tr child else (child, tr)
      let sent := sendResToClient env one.2 clientFd (if child.writeFd = -1 then .ok else .err)
      let r := handleRevive addr clientFd sent.1 sent.2 rest
      (r.1, one.1 :: r.2.1, r.2.2)
    else
      let r := handleRevive addr clientFd res tr rest
      (r.1, child :: r.2.1, r.2.2)

/-! ## Requests of nodes -/

/-- The node process has told its port and address; it is connected to. -/
def handleUpdateChild (tr : ServerTrace) (update : NodeUpdate) :
    List Child → List Child × ServerTrace
  | [] => ([], tr)
  | child :: rest =>
    if child.pid = update.pid then
      let fd := env.connect tr.length update.port
      ({ child with port := update.port, addr := update.addr, writeFd := fd } :: rest,
        tr ++ [.connect update.port fd])
    else
      let r := handleUpdateChild tr update rest
      (child :: r.1, r.2)

/-- An unknown type of notification is passed over. -/
def handleNotify (tr : ServerTrace) (clientFd : Int) (notify : Notify) : Bool × ServerTrace :=
  match notify.type with
  | .known .gotMessage =>
    if clientFd > 0 then ioWriteAll env tr clientFd [RequestResult.ok.toByte] else (true, tr)
  | .known .fail =>
    if clientFd > 0 then ioWriteAll env tr clientFd [RequestResult.err.toByte] else (true, tr)
  | .other .. => (true, tr)

end Server

end MeshNet
