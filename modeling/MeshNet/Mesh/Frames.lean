import MeshNet.Mesh.Simulation
import MeshNet.Mesh.Wire
import MeshNet.Node.Slots

/-!
# The frames that nodes send each other

A node that knows only routes through its neighbours, and is only sent frames by the server and by
its neighbours, sends frames to the server and to its neighbours only. Packets leave it with a
checksum that is right, and say by whom they are sent where their receiver learns a route from it.
-/

namespace MeshNet
open Library

/-- The frames that node `a` sends its neighbours. -/
inductive NodeFrame (a : UInt8) : List UInt8 → Prop
  | send {p : NodePacket} (hp : p.Sound) (buf : Nat → UInt8) :
      NodeFrame a ((createPacket .send .node p).sent buf)
  | route {req : Request} (hreq : req = .routeDirect ∨ req = .routeInverse) {p : NodePacket}
      (hp : p.Sound) (hlocal : p.localSenderAddr = a) (buf : Nat → UInt8) :
      NodeFrame a ((createPacket req .node p).sent buf)
  | contest {req : Request} (hreq : req.layout = some .contest) {c : UnicastContest}
      (hc : c.appPayload.Fits) (hfrom : c.nodeAddr = a) (buf : Nat → UInt8) :
      NodeFrame a ((createContest req .node c).sent buf)

/-- The frames that the server sends the nodes. -/
inductive ServerFrame : List UInt8 → Prop
  | control {req : Request} (hreq : req = .ping ∨ req = .reset) (buf : Nat → UInt8) :
      ServerFrame ((createAddr req .server none).sent buf)
  | send {p : NodePacket} (hp : p.Sound) (buf : Nat → UInt8) :
      ServerFrame ((createPacket .send .server p).sent buf)
  | spread {req : Request} (hreq : req = .broadcast ∨ req = .unicast) {p : NodePacket}
      (hfits : p.appPayload.Fits) (buf : Nat → UInt8) :
      ServerFrame ((createPacket req .server p).sent buf)

/-- What node `a` sends, and to which port. -/
inductive MaySend (a : UInt8) : UInt16 → List UInt8 → Prop
  | notify (notify : Notify) (buf : Nat → UInt8) :
      MaySend a serverPort ((createNotify .node notify).sent buf)
  | frame {b : UInt8} (hadj : Adjacent a b) {bytes : List UInt8} (h : NodeFrame a bytes) :
      MaySend a (nodePort b) bytes

/-- From `l` to `l'` only what node `a` may send was sent. -/
abbrev SendsOnly (env : Env) (a : UInt8) : Link → Link → Prop :=
  Link.Emits env.net (MaySend a) fun _ _ _ => True

variable {z : Zlib} {env : Env} {n : Node} {p : NodePacket} {c : UnicastContest} {l l' : Link}
  {a b x : UInt8}

/-! ## How frames are made -/

/-- The requests whose packets are checked by the node that gets them. -/
def Request.IsChecked (req : Request) : Prop :=
  req = .send ∨ req = .routeDirect ∨ req = .routeInverse

/-- `format_create` has made the frame, and a packet in it that is to be checked is sound. -/
def Made (sender : RequestSender) (bytes : List UInt8) : Prop :=
  ∃ req payload frame buf, formatCreate 0 req payload sender = some frame ∧
    (∀ p ∈ payload, p.Fits) ∧ (req.IsChecked → ∃ p, payload = some (.packet p) ∧ p.Sound) ∧
    bytes = frame.sent buf

variable {sender : RequestSender} {bytes : List UInt8}

theorem Made.whole (h : Made sender bytes) : Whole bytes := by
  obtain ⟨req, payload, frame, buf, hcreate, hfits, -, rfl⟩ := h
  exact whole_of_formatCreate hcreate hfits buf

theorem made_packet {req : Request} (hreq : req.layout = some .packet) (hfits : p.appPayload.Fits)
    (hsound : req.IsChecked → p.Sound) (buf : Nat → UInt8) :
    Made sender ((createPacket req sender p).sent buf) :=
  ⟨req, _, _, buf, formatCreate_packet sender p hreq,
    (fun _ hp _ ha => by cases hp; cases ha; exact hfits),
    fun hchecked => ⟨p, rfl, hsound hchecked⟩, rfl⟩

theorem made_notify (notify : Notify) (buf : Nat → UInt8) :
    Made .node ((createNotify .node notify).sent buf) :=
  ⟨.notify, some (.notify notify), _, buf, rfl, (fun _ hp _ ha => by cases hp; cases ha),
    (by rintro (h | h | h) <;> cases h), rfl⟩

theorem NodeFrame.made (h : NodeFrame a bytes) : Made .node bytes := by
  cases h with
  | send hp buf => exact made_packet rfl hp.fits (fun _ => hp) buf
  | route hreq hp hlocal buf =>
    obtain rfl | rfl := hreq
    · exact made_packet rfl hp.fits (fun _ => hp) buf
    · exact made_packet rfl hp.fits (fun _ => hp) buf
  | @contest req hreq c hc hfrom buf =>
    refine ⟨req, _, _, buf, formatCreate_contest .node c hreq,
      (fun _ hp _ ha => by cases hp; cases ha; exact hc), ?_, rfl⟩
    rintro (rfl | rfl | rfl) <;> cases hreq

theorem ServerFrame.made (h : ServerFrame bytes) : Made .server bytes := by
  cases h with
  | @control req hreq buf =>
    refine ⟨req, none, createAddr req .server none, buf, ?_, (fun _ hp => by cases hp), ?_, rfl⟩
    · obtain rfl | rfl := hreq <;> rfl
    · rintro (rfl | rfl | rfl) <;> obtain h | h := hreq <;> cases h
  | send hp buf => exact made_packet rfl hp.fits (fun _ => hp) buf
  | spread hreq hfits buf =>
    obtain rfl | rfl := hreq
    · exact made_packet rfl hfits (by rintro (h | h | h) <;> cases h) buf
    · exact made_packet rfl hfits (by rintro (h | h | h) <;> cases h) buf

/-! ## Ports -/

theorem MaySend.port {port : UInt16} {bytes : List UInt8} (h : MaySend a port bytes) :
    port ∈ serverPort :: fillNeighborsPort a ∧ port.toNat < 65535 := by
  cases h with
  | notify => exact ⟨List.mem_cons_self, by decide⟩
  | @frame b hadj _ _ =>
    have hb := b.toNat_lt
    refine ⟨List.mem_cons_of_mem _ hadj, ?_⟩
    rw [nodePort_toNat]
    omega

/-! ## The parts of the handlers -/

theorem sendsOnly_notifyServer (h : SendsOnly env a l l') (notify : Notify) :
    SendsOnly env a l (l'.notifyServer env notify).2 :=
  h.send (.notify notify _)

theorem sendsOnly_handToAppAndNotify (h : SendsOnly env a l l') (m : Node) (given : AppPayload) :
    SendsOnly env a l (handToAppAndNotify z env m l' given).2.2 :=
  sendsOnly_notifyServer (h.app trivial) _

/-- A flood starts or goes on, with a new checksum. -/
theorem sendsOnly_broadcastRoute (h : SendsOnly env a l l') (hfits : p.appPayload.Fits)
    (hlocal : p.localSenderAddr = a) :
    SendsOnly env a l (l'.broadcastRoute env (fillNeighborsPort a) p false) := by
  refine h.sendAll fun port hport => ?_
  obtain ⟨b, rfl, hadj⟩ := exists_of_mem_fillNeighborsPort hport
  have hsound : NodePacket.Sound (NodePacket.renewed { p with timeToLive := p.timeToLive - 1 }) :=
    sound_renewed hfits
  exact .frame hadj (.route (.inl rfl) hsound hlocal _)

theorem sendsOnly_broadcast (h : SendsOnly env a l l') (hfits : p.appPayload.Fits) :
    SendsOnly env a l (l'.broadcast env (fillNeighborsPort a) p) := by
  have hall : ∀ ports : List UInt16, (∀ port ∈ ports, port ∈ fillNeighborsPort a) →
      ∀ l', SendsOnly env a l l' → SendsOnly env a l (l'.broadcast env ports p) := by
    intro ports
    induction ports with
    | nil => exact fun _ _ h => h
    | cons port ports ih =>
      intro hports l' h
      obtain ⟨b, rfl, hadj⟩ := exists_of_mem_fillNeighborsPort (hports port List.mem_cons_self)
      have hsound : NodePacket.Sound
          (NodePacket.renewed { p with receiverAddr := nodeAddr (nodePort b) }) :=
        sound_renewed hfits
      exact ih (fun q hq => hports q (List.mem_cons_of_mem _ hq)) _
        (h.send (.frame hadj (.send hsound _)))
  exact hall _ (fun _ hport => hport) l' h

/-! ## Requests of the server -/

theorem sendsOnly_handleServerSend (hroutes : n.routing.Near n.addr) (hfits : p.appPayload.Fits) :
    SendsOnly env n.addr n.link (handleServerSend z env n .send p).2.link := by
  unfold handleServerSend
  dsimp only
  split
  · exact .refl
  · split
    · exact sendsOnly_handToAppAndNotify .refl n _
    · split
      · exact sendsOnly_broadcastRoute .refl (fits_setupDelivery hfits) rfl
      · rename_i hnext
        have hsound : NodePacket.Sound (NodePacket.renewed
            { p with appPayload := nodeAppSetupDelivery z env.deflated p.appPayload }) :=
          sound_renewed (fits_setupDelivery hfits)
        exact Link.Emits.refl.send (.frame (hroutes _ hnext) (.send hsound _))

theorem sendsOnly_handleServerUnicast (hfits : p.appPayload.Fits) :
    SendsOnly env n.addr n.link (handleServerUnicast z env n p).link := by
  refine Link.Emits.sendAll .refl fun port hport => ?_
  obtain ⟨b, rfl, hadj⟩ := exists_of_mem_fillNeighborsPort hport
  let unicast : UnicastContest :=
    ⟨.known .unicastContest, n.addr, nodeAppSetupDelivery z env.deflated p.appPayload⟩
  exact .frame hadj (.contest (c := unicast) rfl (fits_setupDelivery hfits) rfl _)

/-! ## Requests of neighbours -/

theorem sendsOnly_handleNodeSend (hroutes : n.routing.Near n.addr) (hp : p.Sound) :
    SendsOnly env n.addr n.link (handleNodeSend z env n p).2.link := by
  unfold handleNodeSend
  split
  · exact .refl
  · split
    · unfold nodeHandleAppRequest
      dsimp only
      split
      · exact sendsOnly_handToAppAndNotify (sendsOnly_notifyServer .refl _) n _
      · exact sendsOnly_handToAppAndNotify .refl n _
    · unfold sendNext
      dsimp only
      split
      · exact sendsOnly_broadcastRoute .refl hp.fits rfl
      · rename_i hnext
        exact Link.Emits.refl.send (.frame (hroutes _ hnext) (.send hp _))

theorem near_del {t : RoutingTable} (h : t.Near a) : (t.del x).Near a := by
  intro e he
  rw [RoutingTable.nextAddr_eq, RoutingTable.get_del] at he ⊢
  split at he
  · exact absurd rfl he
  · rw [if_neg ‹_›]
    rw [← RoutingTable.nextAddr_eq] at he ⊢
    exact h e he

theorem sendsOnly_routeDirectHandleDelivered (hroutes : n.routing.Near n.addr) (hp : p.Sound) :
    SendsOnly env n.addr n.link (routeDirectHandleDelivered z env n p).2.link ∧
      (routeDirectHandleDelivered z env n p).2.routing.Near n.addr := by
  by_cases hanswered : n.messages.Answered p.appPayload.id
  · rw [routeDirectHandleDelivered_of_answered hp.crc hanswered]
    exact ⟨.refl, hroutes⟩
  · rw [routeDirectHandleDelivered_of_not_answered hp.crc hanswered]
    dsimp only
    split
    · exact ⟨.refl, hroutes⟩
    · rename_i hnext
      have hsound : (p.inverse n.addr).Sound := sound_renewed hp.fits
      have hsent : SendsOnly env n.addr n.link (sendPacket env n.link
          (n.routing.nextAddr p.senderAddr) .routeInverse (p.inverse n.addr)).2 :=
        Link.Emits.refl.send (.frame (hroutes _ hnext) (.route (.inr rfl) hsound rfl _))
      split
      · exact ⟨hsent, near_del hroutes⟩
      · exact ⟨sendsOnly_handToAppAndNotify hsent n _, hroutes⟩

theorem sendsOnly_handleNodeRouteDirect (hroutes : n.routing.Near n.addr) (hp : p.Sound)
    (hadj : Adjacent n.addr p.localSenderAddr) :
    SendsOnly env n.addr n.link (handleNodeRouteDirect z env n p).2.link ∧
      (handleNodeRouteDirect z env n p).2.routing.Near n.addr := by
  by_cases hv : p.Valid
  · by_cases ht : n.messages.Taken p.appPayload.id
    · rw [handleNodeRouteDirect_of_taken ht]
      exact ⟨.refl, hroutes⟩
    · rw [handleNodeRouteDirect_of_not_taken hv ht]
      have htaken : (n.takeIn p).routing.Near n.addr := near_takeIn hroutes hadj
      split
      · exact sendsOnly_routeDirectHandleDelivered (n := n.takeIn p) htaken hp
      · exact ⟨sendsOnly_broadcastRoute .refl hp.fits rfl, htaken⟩
  · rw [handleNodeRouteDirect_of_not_valid hv]
    exact ⟨.refl, hroutes⟩

theorem sendsOnly_handleNodeRouteInverse (hroutes : n.routing.Near n.addr) (hp : p.Sound)
    (hadj : Adjacent n.addr p.localSenderAddr) :
    SendsOnly env n.addr n.link (handleNodeRouteInverse env n p).2.link ∧
      (handleNodeRouteInverse env n p).2.routing.Near n.addr := by
  have hlearnt : (n.routing.learnInverse p.receiverAddr p.localSenderAddr p.timeToLive).Near
      n.addr := near_learnInverse hroutes hadj
  unfold handleNodeRouteInverse
  dsimp only
  split
  · exact ⟨.refl, hroutes⟩
  · split
    · exact ⟨.refl, hlearnt⟩
    · split
      · exact ⟨.refl, hlearnt⟩
      · rename_i hnext
        have hsound : NodePacket.Sound (NodePacket.renewed
            { p with localSenderAddr := n.addr, timeToLive := p.timeToLive - 1 }) :=
          sound_renewed hp.fits
        have hnothing : SendsOnly env n.addr n.link n.link := .refl
        have hsent := hnothing.send
          (MaySend.frame (hlearnt _ hnext) (.route (.inr rfl) hsound rfl env.stack))
        split
        · exact ⟨hsent, near_del hlearnt⟩
        · exact ⟨hsent, hlearnt⟩

theorem sendsOnly_handleUnicastContest (hfits : c.appPayload.Fits)
    (hadj : Adjacent n.addr c.nodeAddr) :
    SendsOnly env n.addr n.link (handleUnicastContest env n c).link :=
  Link.Emits.refl.send
    (.frame hadj (.contest (c := { c with nodeAddr := n.addr }) rfl hfits rfl _))

/-- The winner of a contest is sent the message with a checksum. -/
theorem sendsOnly_handleUnicastFirst (hfits : c.appPayload.Fits)
    (hadj : Adjacent n.addr c.nodeAddr) :
    SendsOnly env n.addr n.link (handleUnicastFirst env n c).link := by
  unfold handleUnicastFirst
  dsimp only
  split
  · exact .refl
  · exact .refl
  · have hsound : NodePacket.Sound
        (NodePacket.renewed ⟨n.addr, c.nodeAddr, 0, 0, c.appPayload, 0⟩) := sound_renewed hfits
    exact Link.Emits.refl.send (.frame hadj (.send hsound _))

/-! ## A step of a node -/

/-- What may arrive at node `b`. -/
def MayArrive (b : UInt8) (bytes : List UInt8) : Prop :=
  ServerFrame bytes ∨ ∃ a, Adjacent a b ∧ NodeFrame a bytes

/-- The node has only sent to the server and to its neighbours, and knows only routes through
these. -/
structure Node.Settled (n : Node) : Prop where
  apps : n.apps = nodeAppFillDefault n.addr
  routes : n.routing.Near n.addr
  slots : n.link.Slotted (serverPort :: n.neighbors)
  ports : ∀ port bytes ok, .send port bytes ok ∈ n.link.trace → port ∈ serverPort :: n.neighbors

theorem routing_handleServerSend (cmd : Request) (p : NodePacket) :
    (handleServerSend z env n cmd p).2.routing = n.routing := by
  unfold handleServerSend
  dsimp only
  split_ifs <;> rfl

theorem routing_handleNodeSend (p : NodePacket) :
    (handleNodeSend z env n p).2.routing = n.routing := by
  unfold handleNodeSend nodeHandleAppRequest sendNext
  dsimp only
  split_ifs <;> rfl

theorem routing_handleUnicastFirst (c : UnicastContest) :
    (handleUnicastFirst env n c).routing = n.routing := by
  unfold handleUnicastFirst
  dsimp only
  split <;> rfl

variable {bytes : List UInt8}

/-- A node starts again or sends what it may. -/
theorem nodeStep_server (hroutes : n.routing.Near n.addr) (h : ServerFrame bytes) :
    nodeStep z n (env, bytes) = handleReset n ∨
      SendsOnly env n.addr n.link (nodeStep z n (env, bytes)).link ∧
        (nodeStep z n (env, bytes)).routing.Near n.addr := by
  cases h with
  | control hreq buf =>
    obtain rfl | rfl := hreq
    · exact .inr ⟨.reply .refl, hroutes⟩
    · exact .inl rfl
  | @send p hp buf =>
    rw [nodeStep_packet rfl hp.fits]
    refine .inr ⟨sendsOnly_handleServerSend hroutes hp.fits, ?_⟩
    change (handleServerSend z env n .send _).2.routing.Near n.addr
    rwa [routing_handleServerSend]
  | @spread req hreq p hfits buf =>
    obtain rfl | rfl := hreq
    · rw [nodeStep_packet rfl hfits]
      exact .inr ⟨sendsOnly_broadcast .refl (fits_setupDelivery hfits), hroutes⟩
    · rw [nodeStep_packet rfl hfits]
      exact .inr ⟨sendsOnly_handleServerUnicast hfits, hroutes⟩

theorem nodeStep_neighbour (hroutes : n.routing.Near n.addr) (hadj : Adjacent a n.addr)
    (h : NodeFrame a bytes) :
    SendsOnly env n.addr n.link (nodeStep z n (env, bytes)).link ∧
      (nodeStep z n (env, bytes)).routing.Near n.addr := by
  cases h with
  | send hp buf =>
    rw [nodeStep_packet rfl hp.fits]
    refine ⟨sendsOnly_handleNodeSend hroutes (hp.received _), ?_⟩
    change (handleNodeSend z env n _).2.routing.Near n.addr
    rwa [routing_handleNodeSend]
  | @route req hreq p hp hlocal buf =>
    have hback : Adjacent n.addr (p.received env.heap).localSenderAddr := by
      rw [← hlocal] at hadj
      exact hadj.symm
    obtain rfl | rfl := hreq
    · rw [nodeStep_packet rfl hp.fits]
      exact sendsOnly_handleNodeRouteDirect hroutes (hp.received _) hback
    · rw [nodeStep_packet rfl hp.fits]
      exact sendsOnly_handleNodeRouteInverse hroutes (hp.received _) hback
  | @contest req hreq c hc hfrom buf =>
    have hback : Adjacent n.addr (c.received env.heap).nodeAddr := by
      rw [← hfrom] at hadj
      exact hadj.symm
    rw [nodeStep_contest hreq hc]
    cases req with
    | unicastContest => exact ⟨sendsOnly_handleUnicastContest hc hback, hroutes⟩
    | unicastFirst =>
      refine ⟨sendsOnly_handleUnicastFirst hc hback, ?_⟩
      change (handleUnicastFirst env n _).routing.Near n.addr
      rwa [routing_handleUnicastFirst]
    | _ => cases hreq

theorem nodeStep_cases (z : Zlib) (env : Env) (hroutes : n.routing.Near n.addr)
    (h : MayArrive n.addr bytes) :
    nodeStep z n (env, bytes) = handleReset n ∨
      SendsOnly env n.addr n.link (nodeStep z n (env, bytes)).link ∧
        (nodeStep z n (env, bytes)).routing.Near n.addr := by
  obtain hserver | ⟨a, hadj, hnode⟩ := h
  · exact nodeStep_server hroutes hserver
  · exact .inr (nodeStep_neighbour hroutes hadj hnode)

theorem sameHost_nodeStep (happs : n.apps = nodeAppFillDefault n.addr) (i : Env × List UInt8) :
    n.SameHost (nodeStep z n i) := by
  unfold nodeStep nodeHandleRequest
  split
  · exact sameHost_nodeListenerHandle _ _ happs
  · exact ⟨rfl, rfl⟩

theorem settled_start (a : UInt8) : (Node.start a).Settled :=
  ⟨rfl, near_fillDefault, Link.slotted_initial _, nofun⟩

theorem settled_nodeStep (z : Zlib) (env : Env) (hn : n.Settled) (h : MayArrive n.addr bytes) :
    (nodeStep z n (env, bytes)).Settled := by
  obtain ⟨haddr, happs⟩ := sameHost_nodeStep (z := z) hn.apps (env, bytes)
  have happs' := happs.trans (hn.apps.trans (congrArg nodeAppFillDefault haddr.symm))
  obtain hreset | ⟨hsends, hroutes⟩ := nodeStep_cases z env hn.routes h
  · rw [hreset]
    exact ⟨rfl, near_fillDefault, Link.slotted_resetConnections hn.slots, hn.ports⟩
  · have hneighbors : (nodeStep z n (env, bytes)).neighbors = n.neighbors :=
      congrArg fillNeighborsPort haddr
    refine ⟨happs', by rwa [haddr], ?_, fun port bytes' ok hsend => ?_⟩
    · rw [hneighbors]
      exact hn.slots.emits hsends fun _ _ h => h.port
    · rw [hneighbors]
      obtain ⟨es, htrace, hes⟩ := hsends.trace
      rw [htrace] at hsend
      obtain hold | hnew := List.mem_append.mp hsend
      · exact hn.ports port bytes' ok hold
      · exact (MaySend.port (hes _ hnew)).1

end MeshNet
