import MeshNet.Node.Healthy
import MeshNet.Node.Hops

/-!
# The distances that nodes learn

A node computes how far a packet has come from its time to live. A flooded packet is counted down
before it is sent and an inverse packet after it was received; and a flood that starts again at a
node in between starts with a new time to live.
-/

namespace MeshNet
open Library

/-- The way of a message, with the hop that its packet is making: how often it was sent from node
to node, and how far it has been flooded since; or how far the answer has come from the receiver. -/
inductive Leg where
  | send (hops : Nat)
  | direct (sent hops : Nat)
  | inverse (hops : Nat)

/-- The hop that follows when a node writes a packet with a certain request. -/
def Leg.next : Leg → Request → Option Leg
  | .send k, .send => some (.send (k + 1))
  | .send k, .routeDirect => some (.direct k 1)
  | .direct k h, .routeDirect => some (.direct k (h + 1))
  | .direct _ _, .routeInverse => some (.inverse 1)
  | .inverse h, .routeInverse => some (.inverse (h + 1))
  | _, _ => none

/-- What a frame asks for. -/
def IsRequest (req : Request) (bytes : List UInt8) : Prop :=
  ∃ heap stack incoming, receive heap stack bytes = some incoming ∧
    incoming.parsed.req = .known req

/-- The frames of a message and of what comes of it, on a path of nodes in any states whose parts
of the network do as they like. The first of them is the one in which the server hands the message
to its sender. -/
inductive Abroad (z : Zlib) (p : NodePacket) : Leg → List UInt8 → Prop
  | asked (hp : p.Sound) (buf : Nat → UInt8) :
      Abroad z p (.send 0) ((createPacket .send .server p).sent buf)
  | written {leg leg' : Leg} {bytes bytes' : List UInt8} {env : Env} {n : Node} {es : List Event}
      {port : UInt16} {ok : Bool} {req : Request} (h : Abroad z p leg bytes)
      (hfirst : leg = .send 0 → n.addr = p.senderAddr)
      (htrace : (nodeStep z n (env, bytes)).link.trace = n.link.trace ++ es)
      (hevent : .send port bytes' ok ∈ es) (hreq : IsRequest req bytes')
      (hleg : leg.next req = some leg') : Abroad z p leg' bytes'

/-- From the frame the node has a new entry for a destination, with this metric. -/
def Learns (z : Zlib) (n : Node) (i : Env × List UInt8) (d : UInt8) (metric : Int8) : Prop :=
  ∃ next, next ≠ noAddr ∧ (nodeStep z n i).routing.get d = ⟨next, metric⟩ ∧
    n.routing.get d ≠ ⟨next, metric⟩

/-- The packet is on its way on behalf of the message `p`. -/
structure NodePacket.Serves (q p : NodePacket) : Prop where
  sound : q.Sound
  sender : q.senderAddr = p.senderAddr
  receiver : q.receiverAddr = p.receiverAddr
  id : q.appPayload.id = p.appPayload.id

/-- Frames with packets on behalf of `p`, whose request and time to live are as `P` says; and
notifications. -/
inductive OnBehalf (p : NodePacket) (P : Request → Int8 → Prop) : UInt16 → List UInt8 → Prop
  | notify (port : UInt16) (notify : Notify) (buf : Nat → UInt8) :
      OnBehalf p P port ((createNotify .node notify).sent buf)
  | packet (port : UInt16) {req : Request} (hlayout : req.layout = some .packet) {q : NodePacket}
      (hq : q.Serves p) (hP : P req q.timeToLive) (buf : Nat → UInt8) :
      OnBehalf p P port ((createPacket req .node q).sent buf)

/-- From `l` to `l'` only such frames were sent. -/
abbrev SendsFor (env : Env) (p : NodePacket) (P : Request → Int8 → Prop) : Link → Link → Prop :=
  Link.Emits env.net (OnBehalf p P) fun _ _ _ => True

variable {z : Zlib} {env : Env} {n : Node} {p q : NodePacket} {l l' : Link}
  {P : Request → Int8 → Prop}

theorem NodePacket.Serves.received (h : q.Serves p) (heap : Message) :
    (q.received heap).Serves p := ⟨h.sound.received heap, h.sender, h.receiver, h.id⟩

theorem NodePacket.Serves.renewed (h : q.Serves p) : q.renewed.Serves p :=
  ⟨sound_renewed h.sound.fits, h.sender, h.receiver, h.id⟩

/-! ## The frames of the handlers -/

theorem sendsFor_notifyServer (h : SendsFor env p P l l') (notify : Notify) :
    SendsFor env p P l (l'.notifyServer env notify).2 :=
  h.send (.notify _ notify _)

theorem sendsFor_handToAppAndNotify (h : SendsFor env p P l l') (m : Node) (given : AppPayload) :
    SendsFor env p P l (handToAppAndNotify z env m l' given).2.2 :=
  sendsFor_notifyServer (h.app trivial) _

theorem sendsFor_sendPacket (h : SendsFor env p P l l') (addr : UInt8) {req : Request}
    (hlayout : req.layout = some .packet) (hq : q.Serves p) (hP : P req q.timeToLive) :
    SendsFor env p P l (sendPacket env l' addr req q).2 :=
  h.send (.packet _ hlayout hq hP _)

/-- A packet is counted down before it is flooded, and gets a new checksum. -/
theorem sendsFor_broadcastRoute (h : SendsFor env p P l l') (ports : List UInt16)
    (hfits : q.appPayload.Fits) (hsender : q.senderAddr = p.senderAddr)
    (hreceiver : q.receiverAddr = p.receiverAddr) (hid : q.appPayload.id = p.appPayload.id)
    (hP : P .routeDirect (q.timeToLive - 1)) :
    SendsFor env p P l (l'.broadcastRoute env ports q false) := by
  have hserves : NodePacket.Serves
      (NodePacket.renewed { q with timeToLive := q.timeToLive - 1 }) p :=
    ⟨sound_renewed hfits, hsender, hreceiver, hid⟩
  exact h.sendAll fun port _ => .packet port rfl hserves hP _

theorem sendsFor_handleServerSend (hq : q.Serves p) (hsend : ∀ k, P .send k)
    (hdirect : q.receiverAddr ≠ n.addr → n.routing.nextAddr q.receiverAddr = noAddr →
      P .routeDirect (ttl - 1)) :
    SendsFor env p P n.link (handleServerSend z env n .send q).2.link := by
  have hfits : (nodeAppSetupDelivery z env.deflated q.appPayload).Fits :=
    fits_setupDelivery hq.sound.fits
  unfold handleServerSend
  dsimp only
  split
  · exact .refl
  · split
    · exact sendsFor_handToAppAndNotify .refl n _
    · rename_i haddr
      have hid : (nodeAppSetupDelivery z env.deflated q.appPayload).id = p.appPayload.id :=
        id_setupDelivery.trans hq.id
      split
      · rename_i hroute
        exact sendsFor_broadcastRoute .refl _ hfits hq.sender hq.receiver hid
          (hdirect haddr hroute)
      · have hserves : NodePacket.Serves (NodePacket.renewed
            { q with appPayload := nodeAppSetupDelivery z env.deflated q.appPayload }) p :=
          ⟨sound_renewed hfits, hq.sender, hq.receiver, hid⟩
        exact sendsFor_sendPacket .refl _ rfl hserves (hsend _)

theorem sendsFor_handleNodeSend (hq : q.Serves p) (hsend : ∀ k, P .send k)
    (hdirect : q.receiverAddr ≠ n.addr → n.routing.nextAddr q.receiverAddr = noAddr →
      P .routeDirect (ttl - 1)) :
    SendsFor env p P n.link (handleNodeSend z env n q).2.link := by
  unfold handleNodeSend
  split
  · exact .refl
  · split
    · unfold nodeHandleAppRequest
      dsimp only
      split
      · exact sendsFor_handToAppAndNotify (sendsFor_notifyServer .refl _) n _
      · exact sendsFor_handToAppAndNotify .refl n _
    · rename_i haddr
      unfold sendNext
      dsimp only
      split
      · rename_i hroute
        exact sendsFor_broadcastRoute .refl _ hq.sound.fits hq.sender hq.receiver hq.id
          (hdirect haddr hroute)
      · exact sendsFor_sendPacket .refl _ rfl hq (hsend _)

/-- The answer to a flooded packet sets out with a whole time to live. -/
theorem sendsFor_routeDirectHandleDelivered (z : Zlib) (env : Env) (n : Node) (hq : q.Serves p)
    (hinverse : P .routeInverse ttl) :
    SendsFor env p P n.link (routeDirectHandleDelivered z env n q).2.link ∧
      ((routeDirectHandleDelivered z env n q).2.routing = n.routing ∨
        (routeDirectHandleDelivered z env n q).2.routing = n.routing.del q.senderAddr) := by
  by_cases hanswered : n.messages.Answered q.appPayload.id
  · rw [routeDirectHandleDelivered_of_answered hq.sound.crc hanswered]
    exact ⟨.refl, .inl rfl⟩
  · rw [routeDirectHandleDelivered_of_not_answered hq.sound.crc hanswered]
    dsimp only
    split
    · exact ⟨.refl, .inl rfl⟩
    · have hserves : (q.inverse n.addr).Serves p :=
        ⟨sound_renewed hq.sound.fits, hq.sender, hq.receiver, hq.id⟩
      have hsent : SendsFor env p P n.link (sendPacket env n.link
          (n.routing.nextAddr q.senderAddr) .routeInverse (q.inverse n.addr)).2 :=
        sendsFor_sendPacket .refl _ rfl hserves hinverse
      split
      · exact ⟨hsent, .inr rfl⟩
      · exact ⟨sendsFor_handToAppAndNotify hsent n _, .inl rfl⟩

/-- A flooded packet with time to live is learnt from and flooded on or answered, or else nothing
happens. -/
theorem sendsFor_handleNodeRouteDirect (z : Zlib) (env : Env) (n : Node) (hq : q.Serves p)
    (hdirect : 0 < q.timeToLive → P .routeDirect (q.timeToLive - 1))
    (hinverse : P .routeInverse ttl) :
    SendsFor env p P n.link (handleNodeRouteDirect z env n q).2.link ∧
      ((handleNodeRouteDirect z env n q).2.routing = n.routing ∨
        0 < q.timeToLive ∧
          ((handleNodeRouteDirect z env n q).2.routing = (n.takeIn q).routing ∨
            (handleNodeRouteDirect z env n q).2.routing =
              (n.takeIn q).routing.del q.senderAddr)) := by
  by_cases hv : q.Valid
  · by_cases ht : n.messages.Taken q.appPayload.id
    · rw [handleNodeRouteDirect_of_taken ht]
      exact ⟨.refl, .inl rfl⟩
    · rw [handleNodeRouteDirect_of_not_taken hv ht]
      split
      · have hdelivered := sendsFor_routeDirectHandleDelivered z env (n.takeIn q) hq hinverse
        exact ⟨hdelivered.1, .inr ⟨hv.1, hdelivered.2⟩⟩
      · exact ⟨sendsFor_broadcastRoute .refl _ hq.sound.fits hq.sender hq.receiver hq.id
          (hdirect hv.1), .inr ⟨hv.1, .inl rfl⟩⟩
  · rw [handleNodeRouteDirect_of_not_valid hv]
    exact ⟨.refl, .inl rfl⟩

/-- An inverse packet is learnt from, and counted down before it is sent on. -/
theorem sendsFor_handleNodeRouteInverse (env : Env) (n : Node) (hq : q.Serves p)
    (hinverse : P .routeInverse (q.timeToLive - 1)) :
    let learnt := n.routing.learnInverse q.receiverAddr q.localSenderAddr q.timeToLive
    SendsFor env p P n.link (handleNodeRouteInverse env n q).2.link ∧
      ((handleNodeRouteInverse env n q).2.routing = learnt ∨ q.senderAddr ≠ n.addr ∧
        (handleNodeRouteInverse env n q).2.routing = learnt.del q.senderAddr) := by
  have hserves : NodePacket.Serves (NodePacket.renewed
      { q with localSenderAddr := n.addr, timeToLive := q.timeToLive - 1 }) p :=
    ⟨sound_renewed hq.sound.fits, hq.sender, hq.receiver, hq.id⟩
  unfold handleNodeRouteInverse
  simp only [hq.sound.crc, Bool.not_true, Bool.false_eq_true, if_false]
  split
  · exact ⟨.refl, .inl rfl⟩
  · rename_i haddr
    split
    · exact ⟨.refl, .inl rfl⟩
    · split
      · exact ⟨sendsFor_sendPacket .refl _ rfl hserves hinverse, .inr ⟨haddr, rfl⟩⟩
      · exact ⟨sendsFor_sendPacket .refl _ rfl hserves hinverse, .inl rfl⟩

/-! ## What the time to live says -/

/-- The packets that make the hop: what they ask for, and how much time to live they have left. -/
def Leg.Allows : Leg → Request → Int8 → Prop
  | .send _, req, _ => req = .send
  | .direct _ h, req, k => req = .routeDirect ∧ h ≤ 20 ∧ k.toInt = 20 - h
  | .inverse h, req, k => req = .routeInverse ∧ RoutingTable.newMetric k = Int8.ofNat h

/-- The packets that may follow. -/
def Leg.Follows (leg : Leg) (req : Request) (k : Int8) : Prop :=
  ∀ leg', leg.next req = some leg' → leg'.Allows req k

variable {leg : Leg} {k : Int8} {h : Nat}

theorem follows_send (j : Nat) (k : Int8) : (Leg.send j).Follows .send k := by
  rintro leg' ⟨⟩
  rfl

theorem follows_started (j : Nat) : (Leg.send j).Follows .routeDirect (ttl - 1) := by
  rintro leg' ⟨⟩
  exact ⟨rfl, by decide, rfl⟩

theorem follows_flooded {j : Nat} (hallows : (Leg.direct j h).Allows .routeDirect k)
    (hlive : 0 < k) :
    (Leg.direct j h).Follows .routeDirect (k - 1) := by
  rintro leg' ⟨⟩
  obtain ⟨-, -, hk⟩ := hallows
  have hlt : 0 < k.toInt := Int8.lt_iff_toInt_lt.mp hlive
  have hnext := toInt_sub_one hlt
  exact ⟨rfl, by omega, by omega⟩

theorem follows_answered (j : Nat) : (Leg.direct j h).Follows .routeInverse ttl := by
  rintro leg' ⟨⟩
  exact ⟨rfl, rfl⟩

theorem follows_returned (hallows : (Leg.inverse h).Allows .routeInverse k) :
    (Leg.inverse h).Follows .routeInverse (k - 1) := by
  rintro leg' ⟨⟩
  obtain ⟨-, hk⟩ := hallows
  refine ⟨rfl, ?_⟩
  have hnext : RoutingTable.newMetric (k - 1) = RoutingTable.newMetric k + 1 := by
    unfold RoutingTable.newMetric
    grind
  rw [hnext, hk]
  exact (Int8.ofNat_add h 1).symm

/-- The frames that make the hop. -/
inductive Leg.Carries (p : NodePacket) : Leg → List UInt8 → Prop
  | asked (hp : p.Sound) (buf : Nat → UInt8) :
      Leg.Carries p (.send 0) ((createPacket .send .server p).sent buf)
  | packet {leg : Leg} {req : Request} (hlayout : req.layout = some .packet) {q : NodePacket}
      (hq : q.Serves p) (hallows : leg.Allows req q.timeToLive) (buf : Nat → UInt8) :
      Leg.Carries p leg ((createPacket req .node q).sent buf)

variable {bytes : List UInt8} {j : Nat}

/-- What a node writes because of a frame makes a hop that follows. -/
theorem sendsFor_nodeStep (h : leg.Carries p bytes) :
    SendsFor env p leg.Follows n.link (nodeStep z n (env, bytes)).link := by
  cases h with
  | asked hp buf =>
    rw [nodeStep_packet rfl hp.fits]
    have hserves : (p.received env.heap).Serves p := ⟨hp.received env.heap, rfl, rfl, rfl⟩
    exact sendsFor_handleServerSend hserves (follows_send 0) fun _ _ => follows_started 0
  | packet hlayout hq hallows buf =>
    rw [nodeStep_packet hlayout hq.sound.fits]
    have hserves := hq.received env.heap
    cases leg with
    | send j =>
      obtain rfl := hallows
      exact sendsFor_handleNodeSend hserves (follows_send j) fun _ _ => follows_started j
    | direct j h =>
      obtain ⟨rfl, -⟩ := id hallows
      exact (sendsFor_handleNodeRouteDirect z env n hserves (follows_flooded hallows)
        (follows_answered j)).1
    | inverse h =>
      obtain ⟨rfl, -⟩ := id hallows
      exact (sendsFor_handleNodeRouteInverse env n hserves (follows_returned hallows)).1

theorem IsRequest.eq {req req' : Request} (h : IsRequest req' ((createPacket req .node q).sent buf))
    (hlayout : req.layout = some .packet) (hfits : q.appPayload.Fits) : req' = req := by
  obtain ⟨heap, stack, incoming, hreceive, hreq⟩ := h
  rw [receive_packet hlayout hfits] at hreceive
  cases hreceive
  cases hreq
  rfl

theorem IsRequest.eq_notify {req : Request} {notify : Notify} {buf : Nat → UInt8}
    (h : IsRequest req ((createNotify .node notify).sent buf)) : req = .notify := by
  obtain ⟨heap, stack, incoming, hreceive, hreq⟩ := h
  rw [receive_notify] at hreceive
  cases hreceive
  cases hreq
  rfl

theorem Abroad.carries (h : Abroad z p leg bytes) : leg.Carries p bytes := by
  induction h with
  | asked hp buf => exact .asked hp buf
  | @written leg _ _ bytes' _ _ _ port _ _ _ _ htrace hevent hreq hleg ih =>
    obtain ⟨es, htrace', hall⟩ := (sendsFor_nodeStep ih).trace
    obtain rfl := List.append_cancel_left (htrace.symm.trans htrace')
    have hframe : OnBehalf p leg.Follows port bytes' := hall _ hevent
    cases hframe with
    | notify =>
      obtain rfl := hreq.eq_notify
      cases leg <;> cases hleg
    | packet hlayout hq hfollows buf =>
      obtain rfl := hreq.eq hlayout hq.sound.fits
      exact .packet hlayout hq (hfollows _ hleg) buf

/-! ## The entries -/

/-- A new entry has the metric at which it was set, also where another one is deleted. -/
theorem metric_eq {t learnt t' : RoutingTable} {d s x next : UInt8} {m m' : Int8}
    (hlearn : learnt = t ∨ learnt = t.setAddr d x m') (hdel : t' = learnt ∨ t' = learnt.del s)
    (hnext : next ≠ noAddr) (hget : t'.get d = ⟨next, m⟩) (hnew : t.get d ≠ ⟨next, m⟩) :
    m = m' ∧ learnt ≠ t := by
  have hlearnt : learnt.get d = ⟨next, m⟩ := by
    obtain rfl | rfl := hdel
    · exact hget
    · rw [RoutingTable.get_del] at hget
      split at hget
      · exact absurd (congrArg RoutingNode.addr hget).symm hnext
      · exact hget
  refine ⟨?_, fun hsame => hnew (by rw [← hsame, hlearnt])⟩
  obtain rfl | rfl := hlearn
  · exact absurd hlearnt hnew
  · rw [RoutingTable.get_setAddr] at hlearnt
    split at hlearnt
    · exact (congrArg RoutingNode.metric hlearnt).symm
    · exact absurd hlearnt hnew

variable {m : Int8}

/-- The metric is one more than the hops since the flood began. -/
theorem metric_direct (hcarries : (Leg.direct j h).Carries p bytes)
    (hlearns : Learns z n (env, bytes) p.senderAddr m) : m.toInt = h + 1 := by
  obtain ⟨next, hnext, hget, hnew⟩ := hlearns
  cases hcarries with
  | @packet _ _ hlayout q hq hallows buf =>
    obtain ⟨rfl, hle, hk⟩ := hallows
    rw [nodeStep_packet rfl hq.sound.fits] at hget
    rw [← hq.sender] at hget hnew
    obtain hsame | ⟨hlive, hdel⟩ := (sendsFor_handleNodeRouteDirect z env n
      (P := fun _ _ => True) (hq.received env.heap) (fun _ => trivial) trivial).2
    · exact absurd (hsame ▸ hget) hnew
    · have hlearn : (n.takeIn (q.received env.heap)).routing = n.routing ∨
          (n.takeIn (q.received env.heap)).routing = n.routing.setAddr q.senderAddr
            q.localSenderAddr (RoutingTable.newMetric q.timeToLive) := by
        rw [Node.routing_takeIn]
        exact (RoutingTable.learnDirect_cases _ _ _).imp And.left And.left
      obtain ⟨rfl, -⟩ := metric_eq hlearn hdel hnext hget hnew
      have hpos : 0 < q.timeToLive.toInt := Int8.lt_iff_toInt_lt.mp hlive
      rw [toInt_newMetric (by omega) (by omega), hk]
      omega

/-- The metric is the number of hops, as far as an `int8_t` can tell. -/
theorem metric_inverse (hcarries : (Leg.inverse h).Carries p bytes)
    (hlearns : Learns z n (env, bytes) p.receiverAddr m) :
    m.toInt = h - 256 * (h / 256 : Nat) := by
  obtain ⟨next, hnext, hget, hnew⟩ := hlearns
  cases hcarries with
  | @packet _ _ hlayout q hq hallows buf =>
    obtain ⟨rfl, hk⟩ := hallows
    rw [nodeStep_packet rfl hq.sound.fits] at hget
    rw [← hq.receiver] at hget hnew
    have hdel := (sendsFor_handleNodeRouteInverse env n
      (P := fun _ _ => True) (hq.received env.heap) trivial).2.imp_right And.right
    have hcases := RoutingTable.learnInverse_cases (t := n.routing) q.receiverAddr
      q.localSenderAddr q.timeToLive
    obtain ⟨rfl, hchanged⟩ :=
      metric_eq (hcases.imp And.left And.left) hdel hnext hget hnew
    have hpos : 0 < RoutingTable.newMetric q.timeToLive :=
      (hcases.resolve_left fun hkept => hchanged hkept.1).2.1
    rw [hk] at hpos ⊢
    have hlt : (0 : Int) < (Int8.ofNat h).toInt := Int8.lt_iff_toInt_lt.mp hpos
    rw [Int8.toInt_ofNat'] at hlt ⊢
    change 0 < (h : Int).bmod 256 at hlt
    change (h : Int).bmod 256 = _
    rw [Int.bmod_def] at hlt ⊢
    split at hlt <;> omega

/-- One offset fits a metric that a flood leaves and one that an inverse packet leaves if and only
if the flood began one hop away from the sender, or more hops where the count of the inverse packet
has passed the end of its type. -/
theorem offset_iff {z : Zlib} {p p' : NodePacket} {j h h' : Nat} {bytes bytes' : List UInt8}
    {n n' : Node} {env env' : Env} {m m' : Int8}
    (hdirect : Abroad z p (.direct j h) bytes) (hm : Learns z n (env, bytes) p.senderAddr m)
    (hinverse : Abroad z p' (.inverse h') bytes')
    (hm' : Learns z n' (env', bytes') p'.receiverAddr m') :
    (∃ c : Int, m.toInt = (j + h : Nat) + c ∧ m'.toInt = h' + c) ↔ j = 1 + 256 * (h' / 256) := by
  rw [metric_direct hdirect.carries hm, metric_inverse hinverse.carries hm']
  constructor
  · rintro ⟨c, hc, hc'⟩
    omega
  · intro hj
    exact ⟨-256 * (h' / 256 : Nat), by omega, by omega⟩

/-- A message for the neighbour of the node that is to send it. -/
def errand : NodePacket :=
  NodePacket.renewed ⟨1, 2, 0, 0, ⟨.known .delivery, 0, 0, 5, 0, .zero, 0⟩, 0⟩

/-- The packet of the message on its way. -/
def errandOnRoute (localSenderAddr : UInt8) (timeToLive : Int8) : NodePacket :=
  NodePacket.renewed { errand with
    localSenderAddr := localSenderAddr, timeToLive := timeToLive,
    appPayload := nodeAppSetupDelivery .stored .zero errand.appPayload }

def errandAsked : List UInt8 := (createPacket .send .server errand).sent fun _ => 0

def errandFlooded : List UInt8 :=
  (createPacket .routeDirect .node (errandOnRoute 1 19)).sent fun _ => 0

def errandAnswered : List UInt8 :=
  (createPacket .routeInverse .node (errandOnRoute 2 20)).sent fun _ => 0

theorem isRequest_errand {req : Request} (hlayout : req.layout = some .packet)
    (localSenderAddr : UInt8) (timeToLive : Int8) :
    IsRequest req ((createPacket req .node
      (errandOnRoute localSenderAddr timeToLive)).sent fun _ => 0) := by
  have hfits : errand.appPayload.Fits := Nat.zero_le _
  have hsent : (errandOnRoute localSenderAddr timeToLive).appPayload.Fits :=
    fits_setupDelivery hfits
  exact ⟨.zero, fun _ => 0, _, receive_packet hlayout hsent _, rfl⟩

theorem abroad_of_start {leg leg' : Leg} {bytes bytes' : List UInt8} {env : Env} {addr : UInt8}
    {port : UInt16} {ok : Bool} {req : Request} (h : Abroad z p leg bytes)
    (hfirst : leg = .send 0 → addr = p.senderAddr)
    (hevent : .send port bytes' ok ∈ (nodeStep z (.start addr) (env, bytes)).link.trace)
    (hreq : IsRequest req bytes') (hleg : leg.next req = some leg') : Abroad z p leg' bytes' :=
  .written (n := .start addr) h hfirst (List.nil_append _).symm hevent hreq hleg

theorem abroad_errandAsked : Abroad .stored errand (.send 0) errandAsked := by
  have hsound : errand.Sound := ⟨Nat.zero_le _, isValidCrc_renewed (Nat.zero_le _)⟩
  exact .asked hsound _

theorem abroad_errandFlooded : Abroad .stored errand (.direct 0 1) errandFlooded := by
  have hevent : Event.send (nodePort 2) errandFlooded true ∈
      (nodeStep .stored (.start 1) (.zeroed .ideal, errandAsked)).link.trace := by decide +kernel
  exact abroad_of_start abroad_errandAsked (fun _ => rfl) hevent (isRequest_errand rfl 1 19) rfl

theorem abroad_errandAnswered : Abroad .stored errand (.inverse 1) errandAnswered := by
  have hevent : Event.send (nodePort 1) errandAnswered true ∈
      (nodeStep .stored (.start 2) (.zeroed .ideal, errandFlooded)).link.trace := by decide +kernel
  exact abroad_of_start abroad_errandFlooded nofun hevent (isRequest_errand rfl 2 20) rfl

theorem learns_errandFlooded :
    Learns .stored (.start 2) (.zeroed .ideal, errandFlooded) errand.senderAddr 2 :=
  ⟨1, by decide, by decide +kernel, by decide +kernel⟩

theorem learns_errandAnswered :
    Learns .stored (.start 1) (.zeroed .ideal, errandAnswered) errand.receiverAddr 1 :=
  ⟨2, by decide, by decide +kernel, by decide +kernel⟩

theorem offset_iff_errand :
    (∃ c : Int, (2 : Int8).toInt = (0 + 1 : Nat) + c ∧ (1 : Int8).toInt = (1 : Nat) + c) ↔
      0 = 1 + 256 * (1 / 256) :=
  offset_iff abroad_errandFlooded learns_errandFlooded abroad_errandAnswered
    learns_errandAnswered

/-- The two neighbours measure their distance differently. -/
theorem offset_differs :
    ¬ ∃ c : Int,
      (∀ (z : Zlib) (p : NodePacket) (j h : Nat) (bytes : List UInt8) (n : Node) (env : Env)
        (m : Int8), Abroad z p (.direct j h) bytes → Learns z n (env, bytes) p.senderAddr m →
          m.toInt = (j + h : Nat) + c) ∧
      ∀ (z : Zlib) (p : NodePacket) (h : Nat) (bytes : List UInt8) (n : Node) (env : Env)
        (m : Int8), Abroad z p (.inverse h) bytes → Learns z n (env, bytes) p.receiverAddr m →
          m.toInt = h + c := by
  rintro ⟨c, hdirect, hinverse⟩
  have hflooded : (2 : Int) = (0 + 1 : Nat) + c :=
    hdirect _ _ _ _ _ _ _ _ abroad_errandFlooded learns_errandFlooded
  have hanswered : (1 : Int) = (1 : Nat) + c :=
    hinverse _ _ _ _ _ _ _ abroad_errandAnswered learns_errandAnswered
  omega

end MeshNet
