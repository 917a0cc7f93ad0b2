import MeshNet.Node.App
import MeshNet.Node.Essentials
import MeshNet.Node.Messages
import MeshNet.Routing

/-!
# The request handlers of a node

One definition for each handler, under the handler's name. Every handler takes the payload as
it was parsed; what the source changes in place in a payload is local to its handler, since
the payload is freed afterwards. The first component of a result is the value returned.
-/

namespace MeshNet

/-- The state of a node process. -/
structure Node where
  addr : UInt8
  routing : RoutingTable
  apps : List App
  messages : MessageTable
  link : Link

namespace Node

/-- The state in which `main` starts to serve. -/
def start (addr : UInt8) : Node where
  addr := addr
  routing := .fillDefault
  apps := nodeAppFillDefault addr
  messages := .initial
  link := .initial

/-- `broadcast_neighbors`, filled once from the address. -/
def neighbors (n : Node) : List UInt16 := fillNeighborsPort n.addr

end Node

def isValidCrc (packet : NodePacket) : Bool := packetCrc packet == packet.crc

variable (z : Zlib) (env : Env) (n : Node)

/-! ## What several handlers do -/

/-- Record that an app was given a payload, and what came of it. -/
def handToApp (l : Link) (a : AppPayload) : Bool × Link :=
  let r := nodeAppHandleRequest z env.inflated n.apps a
  (r.1, l.push (.app a r.1 r.2))

/-- Hand a payload to its app and tell the server what came of it. The first component is
whether it was accepted, the second whether the server could be told. -/
def handToAppAndNotify (l : Link) (a : AppPayload) : Bool × Bool × Link :=
  let r := handToApp z env n l a
  let told := r.2.notifyServer env ⟨.known (if r.1 then .gotMessage else .fail), a.id⟩
  (r.1, told.1, told.2)

/-- Write a packet to the node at `addr`. -/
def sendPacket (l : Link) (addr : UInt8) (req : Request) (packet : NodePacket) : Bool × Link :=
  l.getConnAndSend env.net (nodePort addr) ((createPacket req .node packet).sent env.stack)

/-! ## Requests from the server -/

def handlePing : Bool × Node :=
  let ok := env.net.reply n.link.trace.length
  (ok, { n with link := n.link.push (.reply .ok ok) })

def handleServerSend (cmdType : Request) (packet : NodePacket) : Bool × Node :=
  if !isValidCrc packet then (false, n)
  else
    let packet := { packet with
      appPayload := nodeAppSetupDelivery z env.deflated packet.appPayload }
    if packet.receiverAddr = n.addr then
      (true, { n with link := (handToAppAndNotify z env n n.link packet.appPayload).2.2 })
    else
      let nextAddr := n.routing.nextAddr packet.receiverAddr
      if nextAddr = noAddr then
        let packet := { packet with localSenderAddr := n.addr, timeToLive := ttl }
        (false, { n with link := n.link.broadcastRoute env n.neighbors packet false })
      else
        let packet := { packet with crc := packetCrc packet }
        (true, { n with link := (sendPacket env n.link nextAddr cmdType packet).2 })

def handleBroadcast (broadcastPayload : NodePacket) : Node :=
  let packet := { broadcastPayload with
    appPayload := nodeAppSetupDelivery z env.deflated broadcastPayload.appPayload }
  { n with link := n.link.broadcast env n.neighbors packet }

def handleServerUnicast (unicastPayload : NodePacket) : Node :=
  let unicast : UnicastContest :=
    { nodeAddr := n.addr
      appPayload := nodeAppSetupDelivery z env.deflated unicastPayload.appPayload
      req := .known .unicastContest }
  { n with link := n.link.sendUnicastContest env n.neighbors unicast }

/-- The counter of message ids in use and the connections to the server stay as they are. -/
def handleReset : Node where
  addr := n.addr
  routing := .fillDefault
  apps := nodeAppFillDefault n.addr
  messages := n.messages.fillMessagesDefault
  link := n.link.resetConnections

/-! ## Requests from other nodes -/

/-- A unicast message is announced to the server before the app gets it. -/
def nodeHandleAppRequest (sendPayload : NodePacket) : Bool × Node :=
  let a := sendPayload.appPayload
  let l :=
    if a.reqType = .known .unicast then
      (n.link.notifyServer env ⟨.known .gotMessage, a.id⟩).2
    else n.link
  let r := handToAppAndNotify z env n l a
  (r.1 && r.2.1, { n with link := r.2.2 })

/-- Without a route the packet is flooded from here, with its checksum renewed. -/
def sendNext (retPayload : NodePacket) : Bool × Node :=
  let nextAddr := n.routing.nextAddr retPayload.receiverAddr
  if nextAddr = noAddr then
    let packet := { retPayload with localSenderAddr := n.addr, timeToLive := ttl }
    (false, { n with link := n.link.broadcastRoute env n.neighbors packet false })
  else
    (true, { n with link := (sendPacket env n.link nextAddr .send retPayload).2 })

def handleNodeSend (packet : NodePacket) : Bool × Node :=
  if !isValidCrc packet then (false, n)
  else if packet.receiverAddr = n.addr then nodeHandleAppRequest z env n packet
  else sendNext env n packet

/-- The receiver sends an inverse packet back and then hands the message to its app, unless
its table says that it has done so before. -/
def routeDirectHandleDelivered (routePayload : NodePacket) : Bool × Node :=
  if !isValidCrc routePayload then (false, n)
  else
    let id := routePayload.appPayload.id
    let stopInverse := n.messages.getInverseById id
    if stopInverse.1 = some true then (true, { n with messages := stopInverse.2 })
    else
      let n := { n with messages := stopInverse.2.setInverseById id true }
      let packet := { routePayload with timeToLive := ttl, localSenderAddr := n.addr }
      let packet := { packet with crc := packetCrc packet }
      let nextAddrToBack := n.routing.nextAddr packet.senderAddr
      if nextAddrToBack = noAddr then (false, n)
      else
        let sent := sendPacket env n.link nextAddrToBack .routeInverse packet
        if !sent.1 then
          (false, { n with routing := n.routing.del packet.senderAddr, link := sent.2 })
        else (true, { n with link := (handToAppAndNotify z env n sent.2 packet.appPayload).2.2 })

/-- The check and the update that stand in front of everything a flooded packet causes: whether
the packet is the first with its id, and the table in which it is registered. -/
def registerMessage (t : MessageTable) (id : UInt16) : Bool × MessageTable :=
  let wasMessage := t.getWasMessageById id
  if wasMessage.1 = some true then (false, wasMessage.2)
  else (true, wasMessage.2.setWasMessageById id true)

def handleNodeRouteDirect (routePayload : NodePacket) : Bool × Node :=
  if routePayload.timeToLive ≤ 0 then (true, n)
  else if !isValidCrc routePayload then (false, n)
  else
    let registered := registerMessage n.messages routePayload.appPayload.id
    if !registered.1 then (false, { n with messages := registered.2 })
    else
      let n := { n with
        messages := registered.2
        routing := n.routing.learnDirect routePayload.senderAddr routePayload.localSenderAddr
          routePayload.timeToLive }
      if routePayload.receiverAddr = n.addr then
        (true, (routeDirectHandleDelivered z env n routePayload).2)
      else
        let packet := { routePayload with localSenderAddr := n.addr }
        (true, { n with link := n.link.broadcastRoute env n.neighbors packet false })

def handleUnicastContest (unicast : UnicastContest) : Node :=
  { n with link := n.link.sendUnicastFirst env unicast n.addr }

/-- The first contestant for an id gets the message; the fields of the packet that the source
does not name are zero. -/
def handleUnicastFirst (unicast : UnicastContest) : Node :=
  let id := unicast.appPayload.id
  let unicastFirst := n.messages.getUnicastStatusById id
  match unicastFirst.1 with
  | some true => { n with messages := unicastFirst.2 }
  | some false => { n with messages := unicastFirst.2.setUnicastStatusById id true }
  | none =>
    let packet : NodePacket :=
      { senderAddr := n.addr
        receiverAddr := unicast.nodeAddr
        localSenderAddr := 0
        timeToLive := 0
        appPayload := unicast.appPayload
        crc := 0 }
    let packet := { packet with crc := packetCrc packet }
    { n with
      messages := unicastFirst.2.setUnicastStatusById id true
      link := (sendPacket env n.link unicast.nodeAddr .send packet).2 }

def handleNodeRouteInverse (routePayload : NodePacket) : Bool × Node :=
  if !isValidCrc routePayload then (false, n)
  else
    let n := { n with
      routing := n.routing.learnInverse routePayload.receiverAddr routePayload.localSenderAddr
        routePayload.timeToLive }
    if routePayload.senderAddr = n.addr then (true, n)
    else
      let nextAddr := n.routing.nextAddr routePayload.senderAddr
      if nextAddr = noAddr then (false, n)
      else
        let packet := { routePayload with
          localSenderAddr := n.addr, timeToLive := routePayload.timeToLive - 1 }
        let packet := { packet with crc := packetCrc packet }
        let sent := sendPacket env n.link nextAddr .routeInverse packet
        if !sent.1 then
          (false, { n with routing := n.routing.del packet.senderAddr, link := sent.2 })
        else (true, { n with link := sent.2 })

end MeshNet
