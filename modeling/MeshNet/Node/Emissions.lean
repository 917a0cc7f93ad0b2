import MeshNet.Node.Listener

/-!
# What a node sends while it handles a request

Every frame a node sends is a notification or carries the application payload of the request
it is handling, and the apps are given no other payload either. All that is said later about
what reaches other nodes rests on this.
-/

namespace MeshNet

open Library

/-- The frames that may leave a node on behalf of the application payload `a`. -/
inductive Outgoing (env : Env) (a : AppPayload) : UInt16 → List UInt8 → Prop where
  | notify (notify : Notify) :
      Outgoing env a serverPort ((createNotify .node notify).sent env.stack)
  | packet (addr : UInt8) {req : Request} (hreq : req.layout = some .packet) {p : NodePacket}
      (hp : p.appPayload = a) :
      Outgoing env a (nodePort addr) ((createPacket req .node p).sent env.stack)
  | contest (addr : UInt8) {req : Request} (hreq : req.layout = some .contest)
      {c : UnicastContest} (hc : c.appPayload = a) :
      Outgoing env a (nodePort addr) ((createContest req .node c).sent env.stack)

/-- The apps are given `a` and do with it what they do. -/
def Handed (z : Zlib) (env : Env) (apps : List App) (a given : AppPayload) (accepted : Bool)
    (left : AppPayload) : Prop :=
  given = a ∧ (accepted, left) = nodeAppHandleRequest z env.inflated apps a

abbrev Emits (z : Zlib) (env : Env) (apps : List App) (a : AppPayload) : Link → Link → Prop :=
  Link.Emits env.net (Outgoing env a) (Handed z env apps a)

variable {z : Zlib} {env : Env} {n : Node} {apps : List App} {a : AppPayload} {l l' : Link}

theorem Outgoing.ne_max {port : UInt16} {bytes : List UInt8} (h : Outgoing env a port bytes) :
    port.toNat < 65535 := by
  cases h with
  | notify => decide
  | packet addr => rw [nodePort_toNat]; have := addr.toNat_lt; omega
  | contest addr => rw [nodePort_toNat]; have := addr.toNat_lt; omega

theorem outgoing_neighbor {addr : UInt8} {port : UInt16} (h : port ∈ fillNeighborsPort addr)
    {req : Request} (hreq : req.layout = some .packet) {p : NodePacket} (hp : p.appPayload = a) :
    Outgoing env a port ((createPacket req .node p).sent env.stack) := by
  obtain ⟨b, rfl, -⟩ := exists_of_mem_fillNeighborsPort h
  exact .packet b hreq hp

/-! ## The parts of the handlers -/

theorem emits_notifyServer (h : Emits z env apps a l l') (notify : Notify) :
    Emits z env apps a l (l'.notifyServer env notify).2 :=
  h.send (.notify notify)

theorem emits_handToAppAndNotify (h : Emits z env n.apps a l l') :
    Emits z env n.apps a l (handToAppAndNotify z env n l' a).2.2 :=
  emits_notifyServer (h.app ⟨rfl, rfl⟩) _

theorem emits_sendPacket (h : Emits z env apps a l l') (addr : UInt8) {req : Request}
    (hreq : req.layout = some .packet) {p : NodePacket} (hp : p.appPayload = a) :
    Emits z env apps a l (sendPacket env l' addr req p).2 :=
  h.send (.packet addr hreq hp)

theorem emits_broadcastRoute (h : Emits z env apps a l l') {p : NodePacket}
    (hp : p.appPayload = a) :
    Emits z env apps a l (l'.broadcastRoute env n.neighbors p false) :=
  h.sendAll fun _ hport => outgoing_neighbor hport rfl hp

/-! ## The handlers -/

/-- The payload that leaves or reaches the apps of a node which handles `payload`, first
compressed where it comes from the server. -/
def carriedPayload (z : Zlib) (env : Env) (sender : Packed RequestSender) (a : AppPayload) :
    AppPayload :=
  if sender = .known .server then nodeAppSetupDelivery z env.deflated a else a

theorem emits_handleServerSend (p : NodePacket) :
    Emits z env n.apps (nodeAppSetupDelivery z env.deflated p.appPayload) n.link
      (handleServerSend z env n .send p).2.link := by
  unfold handleServerSend
  split
  · exact .refl
  · dsimp only
    split
    · exact emits_handToAppAndNotify .refl
    · split
      · exact emits_broadcastRoute .refl rfl
      · exact emits_sendPacket .refl _ rfl rfl

theorem emits_handleBroadcast (p : NodePacket) :
    Emits z env n.apps (nodeAppSetupDelivery z env.deflated p.appPayload) n.link
      (handleBroadcast z env n p).link :=
  Link.Emits.broadcast .refl fun _ hport _ hq => outgoing_neighbor hport rfl hq

theorem emits_handleServerUnicast (p : NodePacket) :
    Emits z env n.apps (nodeAppSetupDelivery z env.deflated p.appPayload) n.link
      (handleServerUnicast z env n p).link := by
  refine Link.Emits.sendAll .refl fun port hport => ?_
  obtain ⟨b, rfl, -⟩ := exists_of_mem_fillNeighborsPort hport
  exact .contest b rfl rfl

theorem emits_handleNodeSend (p : NodePacket) :
    Emits z env n.apps p.appPayload n.link (handleNodeSend z env n p).2.link := by
  unfold handleNodeSend
  split
  · exact .refl
  · split
    · unfold nodeHandleAppRequest
      dsimp only
      split
      · exact emits_handToAppAndNotify (emits_notifyServer .refl _)
      · exact emits_handToAppAndNotify .refl
    · unfold sendNext
      dsimp only
      split
      · exact emits_broadcastRoute .refl rfl
      · exact emits_sendPacket .refl _ rfl rfl

theorem emits_routeDirectHandleDelivered (p : NodePacket) :
    Emits z env n.apps p.appPayload n.link (routeDirectHandleDelivered z env n p).2.link := by
  unfold routeDirectHandleDelivered
  split
  · exact .refl
  · dsimp only
    split
    · exact .refl
    · split
      · exact .refl
      · split
        · exact emits_sendPacket .refl _ rfl rfl
        · exact emits_handToAppAndNotify (emits_sendPacket .refl _ rfl rfl)

theorem emits_handleNodeRouteDirect (p : NodePacket) :
    Emits z env n.apps p.appPayload n.link (handleNodeRouteDirect z env n p).2.link := by
  unfold handleNodeRouteDirect
  split
  · exact .refl
  · split
    · exact .refl
    · dsimp only
      split
      · exact .refl
      · split
        · exact emits_routeDirectHandleDelivered (n := { n with
            messages := (registerMessage n.messages p.appPayload.id).2
            routing := n.routing.learnDirect p.senderAddr p.localSenderAddr p.timeToLive }) p
        · exact emits_broadcastRoute .refl rfl

theorem emits_handleUnicastContest (c : UnicastContest) :
    Emits z env n.apps c.appPayload n.link (handleUnicastContest env n c).link :=
  Link.Emits.refl.send (.contest c.nodeAddr rfl rfl)

theorem emits_handleUnicastFirst (c : UnicastContest) :
    Emits z env n.apps c.appPayload n.link (handleUnicastFirst env n c).link := by
  unfold handleUnicastFirst
  dsimp only
  split
  · exact .refl
  · exact .refl
  · exact emits_sendPacket .refl _ rfl rfl

theorem emits_handleNodeRouteInverse (p : NodePacket) :
    Emits z env n.apps p.appPayload n.link (handleNodeRouteInverse env n p).2.link := by
  unfold handleNodeRouteInverse
  split
  · exact .refl
  · dsimp only
    split
    · exact .refl
    · split
      · exact .refl
      · split <;> exact emits_sendPacket .refl _ rfl rfl

/-- Whatever arrives but a reset, a node emits nothing but notifications and frames of the
payload that arrived. -/
theorem emits_nodeListenerHandle {sender : Packed RequestSender} {parsed : Parsed}
    (ha : ∀ p ∈ parsed.payload, ∀ b ∈ p.appPayload?, a = carriedPayload z env sender b)
    (hreset : ¬ (sender = .known .server ∧ parsed.req = .known .reset)) :
    Emits z env n.apps a n.link (nodeListenerHandle z env n sender parsed).2.link := by
  unfold nodeListenerHandle
  split
  · unfold nodeHandleServer
    split
    · exact .reply .refl
    · rename_i p _ hp
      rw [ha _ hp _ rfl]
      exact emits_handleServerSend p
    · rename_i hreq
      exact absurd ⟨rfl, hreq⟩ hreset
    · rename_i p _ hp
      rw [ha _ hp _ rfl]
      exact emits_handleServerUnicast p
    · rename_i p _ hp
      rw [ha _ hp _ rfl]
      exact emits_handleBroadcast p
    · exact .refl
  · unfold nodeHandleNode
    split
    · rename_i p _ hp
      rw [ha _ hp _ rfl]
      exact emits_handleNodeSend p
    · rename_i p _ hp
      rw [ha _ hp _ rfl]
      exact emits_handleNodeRouteDirect p
    · rename_i p _ hp
      rw [ha _ hp _ rfl]
      exact emits_handleNodeRouteInverse p
    · rename_i c _ hc
      rw [ha _ hc _ rfl]
      exact emits_handleUnicastContest c
    · rename_i c _ hc
      rw [ha _ hc _ rfl]
      exact emits_handleUnicastFirst c
    · exact .refl
  · exact .refl

theorem exists_emits_nodeListenerHandle {sender : Packed RequestSender} {parsed : Parsed}
    (hreset : ¬ (sender = .known .server ∧ parsed.req = .known .reset)) :
    ∃ a, Emits z env n.apps a n.link (nodeListenerHandle z env n sender parsed).2.link := by
  cases ha : parsed.payload.bind Payload.appPayload? with
  | none =>
    refine ⟨⟨.known .delivery, 0, 0, 0, 0, .zero, 0⟩,
      emits_nodeListenerHandle (fun p hp b hb => ?_) hreset⟩
    simp_all
  | some b =>
    refine ⟨carriedPayload z env sender b, emits_nodeListenerHandle (fun p hp b' hb' => ?_) hreset⟩
    simp_all

end MeshNet
