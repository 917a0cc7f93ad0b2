import MeshNet.Mesh.Distance
import MeshNet.Mesh.Epochs
import MeshNet.Mesh.Finite
import MeshNet.Mesh.Settled

/-!
# Echoes of a flood

A node without a route floods a message to all its neighbours, and each of these floods it to all of
its own, so that it comes back. The node that began has only the table of messages to tell it by.
-/

namespace MeshNet
open Library

/-- The request of another node, and its packet. -/
def routed? (i : Env × List UInt8) : Option (Request × NodePacket) :=
  match receive i.1.heap i.1.stack i.2 with
  | some ⟨.known .node, ⟨.known req, some (.packet p), _⟩⟩ => some (req, p)
  | _ => none

/-- The packet that the server or another node wants to be sent. -/
def asked? (i : Env × List UInt8) : Option NodePacket :=
  match receive i.1.heap i.1.stack i.2 with
  | some ⟨.known .server, ⟨.known .send, some (.packet p), _⟩⟩
  | some ⟨.known .node, ⟨.known .send, some (.packet p), _⟩⟩ => some p
  | _ => none

/-- A flooded packet of the message `k`, whose sender is the node `a`. -/
def OwnFlood (a : UInt8) (k : UInt16) (bytes : List UInt8) : Prop :=
  ∃ env p, (.routeDirect, p) ∈ routed? (env, bytes) ∧ p.senderAddr = a ∧ p.appPayload.id = k

namespace Node

/-- The node is to send the message `k` of its own and has no route. -/
def Starts (n : Node) (i : Env × List UInt8) (k : UInt16) : Prop :=
  ∃ p ∈ asked? i, p.senderAddr = n.addr ∧ p.appPayload.id = k ∧ isValidCrc p = true ∧
    p.receiverAddr ≠ n.addr ∧ n.routing.nextAddr p.receiverAddr = noAddr

/-- The node floods the message `k` of its own to each of its neighbours, and does nothing else. -/
def FloodsOnce (z : Zlib) (n : Node) (i : Env × List UInt8) (k : UInt16) : Prop :=
  ∃ bytes oks, OwnFlood n.addr k bytes ∧ oks.length = n.neighbors.length ∧
    (nodeStep z n i).link.trace =
      n.link.trace ++ n.neighbors.zipWith (fun port ok => .send port bytes ok) oks

/-- The node floods a message of its own when it is to send it without a route, once, and never
else; it does nothing about copies that come back, and it has no route to itself. -/
structure Recognises (z : Zlib) (n : Node) (i : Env × List UInt8) : Prop where
  whole : ∀ k, n.Starts i k → n.FloodsOnce z i k
  once : ∀ port bytes ok,
    .send port bytes ok ∈ (nodeStep z n i).link.trace.drop n.link.trace.length →
      ∀ k, OwnFlood n.addr k bytes → n.Starts i k
  ignored : ∀ p, (.routeDirect, p) ∈ routed? i → p.senderAddr = n.addr → nodeStep z n i = n
  apart : (nodeStep z n i).routing.nextAddr n.addr = noAddr

/-- A live copy of a flood of the node's own, which the table does not say was handled; or an
inverse packet about the node itself, which names a next hop on the way to it. -/
def Echoed (n : Node) (i : Env × List UInt8) : Prop :=
  ∃ r ∈ routed? i,
    r.1 = .routeDirect ∧ r.2.senderAddr = n.addr ∧ r.2.Valid ∧
        ¬ n.messages.Taken r.2.appPayload.id ∨
      r.1 = .routeInverse ∧ r.2.receiverAddr = n.addr ∧ InMesh n.addr ∧ isValidCrc r.2 = true ∧
        0 < RoutingTable.newMetric r.2.timeToLive ∧ r.2.localSenderAddr ≠ noAddr

instance (n : Node) (i : Env × List UInt8) : Decidable (n.Echoed i) :=
  inferInstanceAs (Decidable (∃ r ∈ routed? i, _))

/-- The node with the address `a`, which has no route to itself. -/
structure Apart (n : Node) (a : UInt8) : Prop where
  addr : n.addr = a
  apps : n.apps = nodeAppFillDefault n.addr
  route : n.routing.nextAddr a = noAddr

end Node

namespace Network

/-- The node that handles something recognises its own floods. -/
def Recognises (z : Zlib) (w : Network) (h : Happening) : Prop :=
  ∀ x ∈ w.handled? h, (w.node x.1).Recognises z (x.2.1, x.2.2.bytes)

def Echoed (w : Network) (h : Happening) : Prop :=
  ∃ x ∈ w.handled? h, (w.node x.1).Echoed (x.2.1, x.2.2.bytes)

instance (w : Network) (h : Happening) : Decidable (w.Echoed h) :=
  inferInstanceAs (Decidable (∃ x ∈ w.handled? h, _))

/-- What a node is handed fits the array for its message. -/
def Happening.Sized (w : Network) (h : Happening) : Prop :=
  ∀ x ∈ w.handled? h, MeshNet.Sized x.2.1.heap x.2.1.stack x.2.2.bytes

instance (w : Network) (h : Happening) : Decidable (h.Sized w) :=
  inferInstanceAs (Decidable (∀ x ∈ w.handled? h, _))

/-- No node has a route to itself. -/
def Apart (w : Network) : Prop := ∀ a, (w.node a).Apart a

end Network

variable {z : Zlib} {env : Env} {n : Node} {p q : NodePacket} {c : UnicastContest} {l l' : Link}
  {i : Env × List UInt8} {a : UInt8} {k : UInt16} {bytes : List UInt8}
  {P : Request → Int8 → Prop}

/-! ## What is received -/

theorem routed?_packet {req : Request} (hlayout : req.layout = some .packet)
    (hfits : p.appPayload.Fits) (buf : Nat → UInt8) :
    routed? (env, (createPacket req .node p).sent buf) = some (req, p.received env.heap) := by
  simp only [routed?, receive_packet hlayout hfits]

theorem routed?_notify {notify : Notify} (buf : Nat → UInt8) :
    routed? (env, (createNotify .node notify).sent buf) = none := by
  simp only [routed?, receive_notify]

theorem routed?_contest {req : Request} (hlayout : req.layout = some .contest)
    (hfits : c.appPayload.Fits) (sender : RequestSender) (buf : Nat → UInt8) :
    routed? (env, (createContest req sender c).sent buf) = none := by
  simp only [routed?, receive_contest hlayout hfits]

theorem routed?_eq {req : Request} (hrouted : (req, p) ∈ routed? i) :
    ∃ died, receive i.1.heap i.1.stack i.2 =
      some ⟨.known .node, ⟨.known req, some (.packet p), died⟩⟩ := by
  unfold routed? at hrouted
  split at hrouted
  · cases hrouted
    exact ⟨_, ‹_›⟩
  · cases hrouted

theorem routed?_of_server {parsed : Parsed}
    (hreceive : receive i.1.heap i.1.stack i.2 = some ⟨.known .server, parsed⟩) :
    routed? i = none := by
  simp only [routed?, hreceive]

theorem asked?_of_send {sender : RequestSender} {died : Bool}
    (hsender : sender = .server ∨ sender = .node)
    (hreceive : receive i.1.heap i.1.stack i.2 =
      some ⟨.known sender, ⟨.known .send, some (.packet p), died⟩⟩) : asked? i = some p := by
  obtain rfl | rfl := hsender
  · simp only [asked?, hreceive]
  · simp only [asked?, hreceive]

theorem routed?_of_receive {req : Request} {died : Bool}
    (hreceive : receive i.1.heap i.1.stack i.2 =
      some ⟨.known .node, ⟨.known req, some (.packet p), died⟩⟩) : (req, p) ∈ routed? i := by
  simp only [routed?, hreceive]
  rfl

theorem asked?_eq (h : p ∈ asked? i) :
    ∃ sender died, (sender = .known .server ∨ sender = .known .node) ∧
      receive i.1.heap i.1.stack i.2 =
        some ⟨sender, ⟨.known .send, some (.packet p), died⟩⟩ := by
  unfold asked? at h
  split at h
  · cases h
    exact ⟨_, _, .inl rfl, ‹_›⟩
  · cases h
    exact ⟨_, _, .inr rfl, ‹_›⟩
  · cases h

theorem asked?_eq_none {sender : Packed RequestSender} {parsed : Parsed}
    (hreceive : receive i.1.heap i.1.stack i.2 = some ⟨sender, parsed⟩)
    (hother : (sender = .known .server ∨ sender = .known .node) →
      ∀ p, parsed.req = .known .send → parsed.payload ≠ some (.packet p)) : asked? i = none := by
  refine Option.eq_none_iff_forall_not_mem.mpr fun p hp => ?_
  obtain ⟨sender', died, hsender, heq⟩ := asked?_eq hp
  cases hreceive.symm.trans heq
  exact hother hsender p rfl rfl

/-- The handler of what is received. -/
theorem nodeStep_of_receive {incoming : Incoming}
    (h : receive i.1.heap i.1.stack i.2 = some incoming) :
    nodeStep z n i = (nodeListenerHandle z i.1 n incoming.sender incoming.parsed).2 := by
  simp only [nodeStep, nodeHandleRequest, h]

theorem nodeStep_routeDirect (hrouted : (.routeDirect, p) ∈ routed? i) :
    nodeStep z n i = (handleNodeRouteDirect z i.1 n p).2 := by
  obtain ⟨died, hreceive⟩ := routed?_eq hrouted
  exact nodeStep_of_receive hreceive

theorem nodeStep_routeInverse (hrouted : (.routeInverse, p) ∈ routed? i) :
    nodeStep z n i = (handleNodeRouteInverse i.1 n p).2 := by
  obtain ⟨died, hreceive⟩ := routed?_eq hrouted
  exact nodeStep_of_receive hreceive

theorem Sized.packet {sender : Packed RequestSender} {req : Packed Request} {died : Bool}
    (h : Sized i.1.heap i.1.stack i.2) (hreceive : receive i.1.heap i.1.stack i.2 =
      some ⟨sender, ⟨req, some (.packet p), died⟩⟩) : p.appPayload.Fits :=
  h _ hreceive _ rfl _ rfl

theorem Sized.contest {sender : Packed RequestSender} {req : Packed Request} {died : Bool}
    (h : Sized i.1.heap i.1.stack i.2) (hreceive : receive i.1.heap i.1.stack i.2 =
      some ⟨sender, ⟨req, some (.contest c), died⟩⟩) : c.appPayload.Fits :=
  h _ hreceive _ rfl _ rfl

theorem Sized.routed {req : Request} (h : Sized i.1.heap i.1.stack i.2)
    (hrouted : (req, p) ∈ routed? i) : p.appPayload.Fits := by
  obtain ⟨died, hreceive⟩ := routed?_eq hrouted
  exact h.packet hreceive

/-! ## Frames that are no floods of the node's own -/

/-- A frame on behalf of a packet is a flood of this packet's sender only. -/
theorem OwnFlood.of_onBehalf {port : UInt16} (h : OwnFlood a k bytes)
    (hbehalf : OnBehalf p P port bytes) :
    (∃ t, P .routeDirect t) ∧ p.senderAddr = a ∧ p.appPayload.id = k := by
  obtain ⟨env, r, hrouted, hsender, hid⟩ := h
  cases hbehalf with
  | notify =>
    rw [routed?_notify] at hrouted
    cases hrouted
  | packet hlayout hq hP buf =>
    rw [routed?_packet hlayout hq.sound.fits] at hrouted
    cases hrouted
    exact ⟨⟨_, hP⟩, hq.sender.symm.trans hsender, hq.id.symm.trans hid⟩

theorem not_ownFlood_send (hfits : p.appPayload.Fits) (buf : Nat → UInt8) :
    ¬ OwnFlood a k ((createPacket .send .node p).sent buf) := by
  rintro ⟨env, q, hrouted, -⟩
  rw [routed?_packet rfl hfits] at hrouted
  cases hrouted

theorem not_ownFlood_contest {req : Request} (hlayout : req.layout = some .contest)
    (hfits : c.appPayload.Fits) (buf : Nat → UInt8) :
    ¬ OwnFlood a k ((createContest req .node c).sent buf) := by
  rintro ⟨env, q, hrouted, -⟩
  rw [routed?_contest hlayout hfits] at hrouted
  cases hrouted

/-- None of the frames is a flood. -/
abbrev Hushed (env : Env) : Link → Link → Prop :=
  Link.Emits env.net (fun _ bytes => ∀ a k, ¬ OwnFlood a k bytes) fun _ _ _ => True

theorem hushed_handleBroadcast (hfits : p.appPayload.Fits) :
    Hushed env n.link (handleBroadcast z env n p).link := by
  refine Link.Emits.broadcast .refl fun port _ q hq a k => not_ownFlood_send ?_ _
  rw [hq]
  exact fits_setupDelivery hfits

theorem hushed_handleServerUnicast (hfits : p.appPayload.Fits) :
    Hushed env n.link (handleServerUnicast z env n p).link := by
  refine Link.Emits.sendAll .refl fun port _ a k => not_ownFlood_contest rfl ?_ _
  exact fits_setupDelivery hfits

theorem hushed_handleUnicastContest (hfits : c.appPayload.Fits) :
    Hushed env n.link (handleUnicastContest env n c).link := by
  refine Link.Emits.refl.send fun a k => not_ownFlood_contest rfl ?_ _
  exact hfits

theorem hushed_handleUnicastFirst (hfits : c.appPayload.Fits) :
    Hushed env n.link (handleUnicastFirst env n c).link := by
  unfold handleUnicastFirst
  dsimp only
  split
  · exact .refl
  · exact .refl
  · refine Link.Emits.refl.send fun a k => not_ownFlood_send ?_ _
    exact hfits

theorem Hushed.not_ownFlood {port : UInt16} {ok : Bool} (h : Hushed env l l')
    (hevent : .send port bytes ok ∈ l'.trace.drop l.trace.length) : ¬ OwnFlood a k bytes := by
  obtain ⟨es, htrace, hall⟩ := h.trace
  rw [htrace, List.drop_left] at hevent
  have hnot : ∀ a k, ¬ OwnFlood a k bytes := hall _ hevent
  exact hnot a k

theorem SendsFor.flood {port : UInt16} {ok : Bool} (h : SendsFor env p P l l')
    (hevent : .send port bytes ok ∈ l'.trace.drop l.trace.length) (hown : OwnFlood a k bytes) :
    (∃ t, P .routeDirect t) ∧ p.senderAddr = a ∧ p.appPayload.id = k := by
  obtain ⟨es, htrace, hall⟩ := h.trace
  rw [htrace, List.drop_left] at hevent
  exact hown.of_onBehalf (hall _ hevent)

/-! ## Routes to the node itself -/

theorem nextAddr_setAddr_of_ne {t : RoutingTable} {d s x : UInt8} {m : Int8} (h : d ≠ s) :
    (t.setAddr s x m).nextAddr d = t.nextAddr d := by
  rw [RoutingTable.nextAddr_eq, RoutingTable.nextAddr_eq, RoutingTable.get_setAddr]
  simp [h]

theorem nextAddr_del_of_ne {t : RoutingTable} {d s : UInt8} (h : d ≠ s) :
    (t.del s).nextAddr d = t.nextAddr d := nextAddr_setAddr_of_ne h

theorem nextAddr_del_of_eq {t : RoutingTable} {d s : UInt8} (h : t.nextAddr d = noAddr) :
    (t.del s).nextAddr d = noAddr := by
  rw [RoutingTable.nextAddr_eq] at h ⊢
  rw [RoutingTable.get_del]
  split
  · rfl
  · exact h

theorem apart_learnDirect {t : RoutingTable} {d s x : UInt8} {m : Int8}
    (h : t.nextAddr d = noAddr) (hne : d ≠ s) : (t.learnDirect s x m).nextAddr d = noAddr := by
  obtain ⟨heq, -⟩ | ⟨heq, -⟩ := RoutingTable.learnDirect_cases (t := t) s x m
  · rwa [heq]
  · rwa [heq, nextAddr_setAddr_of_ne hne]

theorem apart_learnInverse {t : RoutingTable} {d s x : UInt8} {m : Int8}
    (h : t.nextAddr d = noAddr)
    (hno : ¬ (s = d ∧ InMesh d ∧ 0 < RoutingTable.newMetric m ∧ x ≠ noAddr)) :
    (t.learnInverse s x m).nextAddr d = noAddr := by
  obtain ⟨heq, -⟩ | ⟨heq, hpos, -⟩ := RoutingTable.learnInverse_cases (t := t) s x m
  · rwa [heq]
  · rw [heq, RoutingTable.nextAddr_eq, RoutingTable.get_setAddr]
    split
    · rename_i hself
      by_contra hnext
      exact hno ⟨hself.1.symm, hself.1 ▸ hself.2, hpos, hnext⟩
    · rwa [← RoutingTable.nextAddr_eq]

theorem nextAddr_learnInverse_self {t : RoutingTable} {d x : UInt8} {m : Int8} (hd : InMesh d)
    (h : t.nextAddr d = noAddr) (hpos : 0 < RoutingTable.newMetric m) :
    (t.learnInverse d x m).nextAddr d = x := by
  obtain ⟨-, hno⟩ | ⟨heq, -⟩ := RoutingTable.learnInverse_cases (t := t) d x m
  · exact absurd hno (not_or.mpr ⟨by grind, fun hroute => hroute h⟩)
  · have hin : d.toNat < nodeCount := hd
    rw [heq, RoutingTable.nextAddr_eq, RoutingTable.get_setAddr, if_pos ⟨rfl, hin⟩]

/-! ## One request -/

theorem not_starts (hasked : asked? i = none) : ¬ n.Starts i k := by
  rintro ⟨p, hp, -⟩
  rw [hasked] at hp
  cases hp

/-- A request after which nothing was flooded. -/
theorem recognises_of_quiet (hasked : asked? i = none)
    (hrouted : ∀ p, (.routeDirect, p) ∉ routed? i)
    (hquiet : ∀ port bytes ok,
      .send port bytes ok ∈ (nodeStep z n i).link.trace.drop n.link.trace.length →
        ∀ k, ¬ OwnFlood n.addr k bytes)
    (hrouting : (nodeStep z n i).routing.nextAddr n.addr = noAddr) : n.Recognises z i where
  whole _ hk := absurd hk (not_starts hasked)
  once port bytes ok hevent k hown := absurd hown (hquiet port bytes ok hevent k)
  ignored p hp := absurd hp (hrouted p)
  apart := hrouting

theorem recognises_of_hushed {m : Node} (hasked : asked? i = none)
    (hrouted : ∀ p, (.routeDirect, p) ∉ routed? i) (hstep : nodeStep z n i = m)
    (hushed : Hushed i.1 n.link m.link) (hrouting : m.routing = n.routing)
    (hself : n.routing.nextAddr n.addr = noAddr) : n.Recognises z i := by
  subst hstep
  refine recognises_of_quiet hasked hrouted (fun _ _ _ hevent _ => hushed.not_ownFlood hevent) ?_
  rw [hrouting, hself]

/-- A request that leaves the node as it is. A packet that it wants to be sent is damaged. -/
theorem recognises_of_unchanged (hasked : ∀ p ∈ asked? i, isValidCrc p = false)
    (hstep : nodeStep z n i = n) (hself : n.routing.nextAddr n.addr = noAddr) :
    n.Recognises z i where
  whole k := by
    rintro ⟨p, hp, -, -, hcrc, -⟩
    rw [hasked p hp] at hcrc
    cases hcrc
  once port bytes ok hevent := by
    rw [hstep, List.drop_length] at hevent
    cases hevent
  ignored _ _ _ := hstep
  apart := by rw [hstep, hself]

theorem recognises_of_not_asked (hasked : asked? i = none) (hstep : nodeStep z n i = n)
    (hself : n.routing.nextAddr n.addr = noAddr) : n.Recognises z i := by
  refine recognises_of_unchanged (fun p hp => ?_) hstep hself
  rw [hasked] at hp
  cases hp

theorem recognises_of_damaged (hasked : asked? i = some p) (hcrc : ¬ isValidCrc p = true)
    (hstep : nodeStep z n i = n) (hself : n.routing.nextAddr n.addr = noAddr) :
    n.Recognises z i := by
  refine recognises_of_unchanged (fun q hq => ?_) hstep hself
  rw [hasked] at hq
  cases hq
  simpa using hcrc

/-- A request that has the node send a packet. -/
theorem recognises_of_asked (hasked : asked? i = some p) (hp : p.Sound)
    (hrouted : ∀ p, (.routeDirect, p) ∉ routed? i)
    (hself : n.routing.nextAddr n.addr = noAddr) (hrouting : (nodeStep z n i).routing = n.routing)
    (hsends : SendsFor i.1 p
      (fun req _ => req = .routeDirect →
        p.receiverAddr ≠ n.addr ∧ n.routing.nextAddr p.receiverAddr = noAddr)
      n.link (nodeStep z n i).link)
    (hflood : p.receiverAddr ≠ n.addr → n.routing.nextAddr p.receiverAddr = noAddr →
      ∃ q : NodePacket, q.Serves p ∧ (nodeStep z n i).link = n.link.sendAll i.1.net n.neighbors
        ((createPacket .routeDirect .node q).sent i.1.stack)) : n.Recognises z i where
  whole k := by
    rintro ⟨p', hp', hsender, hid, -, haddr, hroute⟩
    rw [hasked] at hp'
    cases hp'
    obtain ⟨q, hq, hlink⟩ := hflood haddr hroute
    let bytes := (createPacket .routeDirect .node q).sent i.1.stack
    have hown : OwnFlood n.addr k bytes :=
      ⟨.zeroed .ideal, _, routed?_packet rfl hq.sound.fits _, hq.sender.trans hsender,
        hq.id.trans hid⟩
    obtain ⟨oks, hlength, htrace⟩ := trace_sendAll (l := n.link) i.1.net n.neighbors bytes
    refine ⟨bytes, oks, hown, hlength, ?_⟩
    rw [hlink]
    exact htrace
  once port bytes ok hevent k hown := by
    obtain ⟨⟨_, hstarts⟩, hsender, hid⟩ := hsends.flood hevent hown
    obtain ⟨haddr, hroute⟩ := hstarts rfl
    exact ⟨p, hasked, hsender, hid, hp.crc, haddr, hroute⟩
  ignored p hp := absurd hp (hrouted p)
  apart := by rw [hrouting, hself]

variable {died : Bool} {parsed : Parsed}

theorem recognises_handleServerSend (hreceive : receive i.1.heap i.1.stack i.2 =
      some ⟨.known .server, ⟨.known .send, some (.packet p), died⟩⟩)
    (hsized : Sized i.1.heap i.1.stack i.2) (hself : n.routing.nextAddr n.addr = noAddr) :
    n.Recognises z i := by
  have hasked : asked? i = some p := asked?_of_send (.inl rfl) hreceive
  have hstep : nodeStep z n i = (handleServerSend z i.1 n .send p).2 := nodeStep_of_receive hreceive
  by_cases hcrc : isValidCrc p = true
  · have hp : p.Sound := ⟨hsized.packet hreceive, hcrc⟩
    have hserves : p.Serves p := ⟨hp, rfl, rfl, rfl⟩
    refine recognises_of_asked hasked hp (fun q => ?_) hself ?_ ?_ fun haddr hroute => ?_
    · rw [routed?_of_server hreceive]
      exact nofun
    · rw [hstep, routing_handleServerSend]
    · rw [hstep]
      exact sendsFor_handleServerSend hserves nofun fun haddr hroute _ => ⟨haddr, hroute⟩
    · let q := NodePacket.renewed { p with
        appPayload := nodeAppSetupDelivery z i.1.deflated p.appPayload
        localSenderAddr := n.addr
        timeToLive := ttl - 1 }
      refine ⟨q, ⟨sound_renewed (fits_setupDelivery hp.fits), rfl, rfl, id_setupDelivery⟩, ?_⟩
      rw [hstep]
      simp only [handleServerSend, hcrc, haddr, hroute, Bool.not_true, Bool.false_eq_true,
        if_false, if_true]
      rfl
  · refine recognises_of_damaged hasked hcrc ?_ hself
    rw [hstep]
    simp [handleServerSend, hcrc]

theorem recognises_handleNodeSend (hreceive : receive i.1.heap i.1.stack i.2 =
      some ⟨.known .node, ⟨.known .send, some (.packet p), died⟩⟩)
    (hsized : Sized i.1.heap i.1.stack i.2) (hself : n.routing.nextAddr n.addr = noAddr) :
    n.Recognises z i := by
  have hasked : asked? i = some p := asked?_of_send (.inr rfl) hreceive
  have hstep : nodeStep z n i = (handleNodeSend z i.1 n p).2 := nodeStep_of_receive hreceive
  by_cases hcrc : isValidCrc p = true
  · have hp : p.Sound := ⟨hsized.packet hreceive, hcrc⟩
    have hserves : p.Serves p := ⟨hp, rfl, rfl, rfl⟩
    refine recognises_of_asked hasked hp (fun q hq => ?_) hself ?_ ?_ fun haddr hroute => ?_
    · obtain ⟨died', heq⟩ := routed?_eq hq
      cases hreceive.symm.trans heq
    · rw [hstep, routing_handleNodeSend]
    · rw [hstep]
      exact sendsFor_handleNodeSend hserves nofun fun haddr hroute _ => ⟨haddr, hroute⟩
    · let q := NodePacket.renewed { p with localSenderAddr := n.addr, timeToLive := ttl - 1 }
      refine ⟨q, ⟨sound_renewed hp.fits, rfl, rfl, rfl⟩, ?_⟩
      rw [hstep]
      simp only [handleNodeSend, sendNext, hcrc, haddr, hroute, Bool.not_true, Bool.false_eq_true,
        if_false, if_true]
      rfl
  · refine recognises_of_damaged hasked hcrc ?_ hself
    rw [hstep]
    simp [handleNodeSend, hcrc]

theorem asked?_of_routed {req : Request} (hrouted : (req, p) ∈ routed? i) (hreq : req ≠ .send) :
    asked? i = none := by
  obtain ⟨died, hreceive⟩ := routed?_eq hrouted
  exact asked?_eq_none hreceive fun _ _ hsend => absurd (Packed.known.inj hsend) hreq

/-- A flooded packet leaves the node as it is, or it is not a flood of the node's own. -/
theorem recognises_routeDirect (hrouted : (.routeDirect, p) ∈ routed? i)
    (hsized : Sized i.1.heap i.1.stack i.2) (hself : n.routing.nextAddr n.addr = noAddr)
    (hno : ¬ n.Echoed i) : n.Recognises z i := by
  have hasked := asked?_of_routed hrouted (by decide)
  have hstep := nodeStep_routeDirect (z := z) (n := n) hrouted
  by_cases hvalid : p.Valid
  · by_cases hown : p.senderAddr = n.addr
    · refine recognises_of_not_asked hasked ?_ hself
      rw [hstep]
      by_cases htaken : n.messages.Taken p.appPayload.id
      · exact handleNodeRouteDirect_of_taken htaken
      · exact absurd ⟨_, hrouted, .inl ⟨rfl, hown, hvalid, htaken⟩⟩ hno
    · have hserves : p.Serves p := ⟨⟨hsized.routed hrouted, hvalid.2⟩, rfl, rfl, rfl⟩
      obtain ⟨hsends, hrouting⟩ := sendsFor_handleNodeRouteDirect z i.1 n
        (P := fun _ _ => True) hserves (fun _ => trivial) trivial
      have happart : (n.takeIn p).routing.nextAddr n.addr = noAddr := by
        rw [Node.routing_takeIn]
        exact apart_learnDirect hself fun hsame => hown hsame.symm
      rw [← hstep] at hsends hrouting
      refine ⟨fun k hk => absurd hk (not_starts hasked),
        fun port bytes ok hevent k hflood => ?_, fun q hq hsender => ?_, ?_⟩
      · exact absurd (hsends.flood hevent hflood).2.1 hown
      · cases hrouted.symm.trans hq
        exact absurd hsender hown
      · obtain hsame | ⟨-, hsame | hsame⟩ := hrouting
        · rw [hsame, hself]
        · rw [hsame, happart]
        · rw [hsame, nextAddr_del_of_eq happart]
  · refine recognises_of_not_asked hasked ?_ hself
    rw [hstep]
    exact handleNodeRouteDirect_of_not_valid hvalid

theorem recognises_routeInverse (hrouted : (.routeInverse, p) ∈ routed? i)
    (hsized : Sized i.1.heap i.1.stack i.2) (hself : n.routing.nextAddr n.addr = noAddr)
    (hno : ¬ n.Echoed i) : n.Recognises z i := by
  have hasked := asked?_of_routed hrouted (by decide)
  have hstep := nodeStep_routeInverse (z := z) (n := n) hrouted
  by_cases hcrc : isValidCrc p = true
  · have hserves : p.Serves p := ⟨⟨hsized.routed hrouted, hcrc⟩, rfl, rfl, rfl⟩
    obtain ⟨hsends, hrouting⟩ := sendsFor_handleNodeRouteInverse i.1 n
      (P := fun req _ => req = .routeInverse) hserves rfl
    have happart := apart_learnInverse (x := p.localSenderAddr) hself
      fun ⟨hreceiver, hmesh, hpos, hlocal⟩ =>
        hno ⟨_, hrouted, .inr ⟨rfl, hreceiver, hmesh, hcrc, hpos, hlocal⟩⟩
    rw [← hstep] at hsends hrouting
    refine ⟨fun k hk => absurd hk (not_starts hasked),
      fun port bytes ok hevent k hflood => ?_, fun q hq _ => ?_, ?_⟩
    · obtain ⟨⟨_, hdirect⟩, -⟩ := hsends.flood hevent hflood
      cases hdirect
    · cases hrouted.symm.trans hq
    · obtain hsame | ⟨-, hsame⟩ := hrouting
      · rw [hsame, happart]
      · rw [hsame, nextAddr_del_of_eq happart]
  · refine recognises_of_not_asked hasked ?_ hself
    rw [hstep]
    simp [handleNodeRouteInverse, hcrc]

/-- The requests of the server flood only what it wants to be sent. -/
theorem recognises_server
    (hreceive : receive i.1.heap i.1.stack i.2 = some ⟨.known .server, parsed⟩)
    (hsized : Sized i.1.heap i.1.stack i.2) (hself : n.routing.nextAddr n.addr = noAddr) :
    n.Recognises z i := by
  obtain ⟨req, payload, died⟩ := parsed
  have hrouted (p : NodePacket) : (.routeDirect, p) ∉ routed? i := by
    rw [routed?_of_server hreceive]
    exact nofun
  have hstep : nodeStep z n i = (nodeHandleServer z i.1 n ⟨req, payload, died⟩).2 :=
    nodeStep_of_receive hreceive
  unfold nodeHandleServer at hstep
  dsimp only at hstep
  split at hstep
  · have hping : Hushed i.1 n.link (handlePing i.1 n).2.link := .reply .refl
    exact recognises_of_hushed (asked?_eq_none hreceive fun _ => nofun) hrouted hstep hping rfl
      hself
  · exact recognises_handleServerSend hreceive hsized hself
  · refine recognises_of_quiet (asked?_eq_none hreceive fun _ => nofun) hrouted
      (fun port bytes ok hevent => ?_) ?_
    · rw [hstep] at hevent
      change _ ∈ n.link.trace.drop n.link.trace.length at hevent
      rw [List.drop_length] at hevent
      cases hevent
    · rw [hstep]
      exact RoutingTable.nextAddr_fillDefault n.addr
  · exact recognises_of_hushed (asked?_eq_none hreceive fun _ => nofun) hrouted hstep
      (hushed_handleServerUnicast (hsized.packet hreceive)) rfl hself
  · exact recognises_of_hushed (asked?_eq_none hreceive fun _ => nofun) hrouted hstep
      (hushed_handleBroadcast (hsized.packet hreceive)) rfl hself
  · rename_i hsend _ _
    exact recognises_of_not_asked (asked?_eq_none hreceive fun _ => hsend) hstep hself

/-- The requests of another node flood only what it wants to be sent, and floods of other nodes. -/
theorem recognises_node
    (hreceive : receive i.1.heap i.1.stack i.2 = some ⟨.known .node, parsed⟩)
    (hsized : Sized i.1.heap i.1.stack i.2) (hself : n.routing.nextAddr n.addr = noAddr)
    (hno : ¬ n.Echoed i) : n.Recognises z i := by
  obtain ⟨req, payload, died⟩ := parsed
  have hrouted (hother : req ≠ .known .routeDirect) (p : NodePacket) :
      (.routeDirect, p) ∉ routed? i := by
    intro hp
    obtain ⟨died', heq⟩ := routed?_eq hp
    cases hreceive.symm.trans heq
    exact hother rfl
  have hstep : nodeStep z n i = (nodeHandleNode z i.1 n ⟨req, payload, died⟩).2 :=
    nodeStep_of_receive hreceive
  unfold nodeHandleNode at hstep
  dsimp only at hstep
  split at hstep
  · exact recognises_handleNodeSend hreceive hsized hself
  · exact recognises_routeDirect (routed?_of_receive hreceive) hsized hself hno
  · exact recognises_routeInverse (routed?_of_receive hreceive) hsized hself hno
  · exact recognises_of_hushed (asked?_eq_none hreceive fun _ => nofun) (hrouted nofun) hstep
      (hushed_handleUnicastContest (hsized.contest hreceive)) rfl hself
  · exact recognises_of_hushed (asked?_eq_none hreceive fun _ => nofun) (hrouted nofun) hstep
      (hushed_handleUnicastFirst (hsized.contest hreceive)) (routing_handleUnicastFirst _) hself
  · rename_i hsend _ _ _ _
    exact recognises_of_not_asked (asked?_eq_none hreceive fun _ => hsend) hstep hself

/-- A node recognises its own floods unless one of them, or its answer to another one, comes back to
it. -/
theorem recognises_of_not_echoed (hsized : Sized i.1.heap i.1.stack i.2)
    (hself : n.routing.nextAddr n.addr = noAddr) (hno : ¬ n.Echoed i) : n.Recognises z i := by
  cases hreceive : receive i.1.heap i.1.stack i.2 with
  | none =>
    have hasked : asked? i = none := by simp only [asked?, hreceive]
    have hstep : nodeStep z n i = n := by simp only [nodeStep, nodeHandleRequest, hreceive]
    exact recognises_of_not_asked hasked hstep hself
  | some incoming =>
    obtain ⟨sender, parsed⟩ := incoming
    have hstep : nodeStep z n i = (nodeListenerHandle z i.1 n sender parsed).2 :=
      nodeStep_of_receive hreceive
    unfold nodeListenerHandle at hstep
    split at hstep
    · exact recognises_server hreceive hsized hself
    · exact recognises_node hreceive hsized hself hno
    · rename_i hserver hnode
      refine recognises_of_not_asked (asked?_eq_none hreceive fun hsender => ?_) hstep hself
      exact absurd hsender (not_or.mpr ⟨hserver, hnode⟩)

theorem not_recognises_of_echoed (hsized : Sized i.1.heap i.1.stack i.2)
    (hself : n.routing.nextAddr n.addr = noAddr) (hechoed : n.Echoed i) : ¬ n.Recognises z i := by
  intro h
  obtain ⟨⟨req, p⟩, hrouted, ⟨rfl, hsender, hvalid, htaken⟩ |
    ⟨rfl, hreceiver, hmesh, hcrc, hpos, hlocal⟩⟩ := hechoed
  · have hsame := h.ignored p hrouted hsender
    rw [nodeStep_routeDirect hrouted] at hsame
    have htaken' : (handleNodeRouteDirect z i.1 n p).2.messages.Taken p.appPayload.id :=
      (lookup_handleNodeRouteDirect hvalid htaken).1
    rw [hsame] at htaken'
    exact htaken htaken'
  · have happart := h.apart
    have hserves : p.Serves p := ⟨⟨hsized.routed hrouted, hcrc⟩, rfl, rfl, rfl⟩
    have hlearnt : (n.routing.learnInverse p.receiverAddr p.localSenderAddr
        p.timeToLive).nextAddr n.addr = p.localSenderAddr := by
      rw [show p.receiverAddr = n.addr from hreceiver]
      exact nextAddr_learnInverse_self hmesh hself hpos
    rw [nodeStep_routeInverse hrouted] at happart
    obtain hsame | ⟨hsender, hsame⟩ := (sendsFor_handleNodeRouteInverse i.1 n
      (P := fun _ _ => True) hserves trivial).2
    · rw [hsame, hlearnt] at happart
      exact hlocal happart
    · rw [hsame, nextAddr_del_of_ne (Ne.symm hsender), hlearnt] at happart
      exact hlocal happart

namespace Network

variable {w : Network} {h : Happening}

theorem sized_of_settled (hsettled : w.Settled) (h : Happening) : h.Sized w := by
  rintro ⟨b, env, f⟩ hhandled
  obtain hserver | ⟨a, -, hnode⟩ := mayArrive_of_handled hsettled hhandled
  · exact hserver.sized env.heap env.stack
  · exact hnode.sized env.heap env.stack

/-- As long as no result is written to a node, what nodes are handed fits. -/
theorem sized_run (z : Zlib) (pids : List Int32) (hs : List Happening)
    (h : Steps (step z) (fun w h => h.Proper w ∧ h.Spares w) (start pids) hs) :
    Steps (step z) (fun w h => h.Sized w) (start pids) hs :=
  (h.with_invariant Settled (fun _ _ => settled_step) (settled_start pids)).imp
    fun _ h hboth => sized_of_settled hboth.1 h

theorem recognises_iff (hsized : h.Sized w) (hapart : w.Apart) :
    w.Recognises z h ↔ ¬ w.Echoed h := by
  unfold Recognises Echoed
  unfold Happening.Sized at hsized
  cases hhandled : w.handled? h with
  | none => simp
  | some x =>
    obtain ⟨b, env, f⟩ := x
    have hfits := hsized _ hhandled
    have hself : (w.node b).routing.nextAddr (w.node b).addr = noAddr := by
      rw [(hapart b).addr]
      exact (hapart b).route
    simp only [Option.mem_def, Option.some.injEq, forall_eq', exists_eq_left']
    constructor
    · exact fun hrecognises hechoed => not_recognises_of_echoed hfits hself hechoed hrecognises
    · exact recognises_of_not_echoed hfits hself

theorem apart_initial (a : UInt8) : (Node.start a).Apart a :=
  ⟨rfl, rfl, RoutingTable.nextAddr_fillDefault a⟩

/-- As long as the nodes recognise their floods, none gets a route to itself. -/
theorem apart_step (hrecognises : w.Recognises z h) (hapart : w.Apart) : (w.step z h).Apart := by
  intro b
  have hupdate {a : UInt8} {n : Node} (hn : n.Apart a) :
      (Function.update w.node a n b).Apart b := by
    by_cases hb : b = a
    · subst hb
      rwa [Function.update_self]
    · rw [Function.update_of_ne hb]
      exact hapart b
  cases hhandled : w.handled? h with
  | none =>
    by_cases hrestart : ∃ addr, h = .restart addr
    · obtain ⟨addr, rfl⟩ := hrestart
      exact hupdate (apart_initial addr)
    · rw [node_step z hhandled (not_exists.mp hrestart)]
      exact hapart b
  | some x =>
    obtain ⟨a, env, f⟩ := x
    rw [(node_step_of_handled z hhandled).1]
    obtain ⟨haddr, happs⟩ := sameHost_nodeStep (z := z) (hapart a).apps (env, f.bytes)
    have hroute := (hrecognises _ hhandled).apart
    rw [(hapart a).addr] at haddr hroute
    refine hupdate ⟨haddr, ?_, hroute⟩
    rw [happs, (hapart a).apps, (hapart a).addr, haddr]

theorem steps_recognises_iff (pids : List Int32) (hs : List Happening) :
    Steps (step z) (fun w h => h.Sized w ∧ w.Recognises z h) (start pids) hs ↔
      Steps (step z) (fun w h => h.Sized w ∧ ¬ w.Echoed h) (start pids) hs :=
  steps_congr Apart
    (fun _ _ hapart => and_congr_right fun hsized => recognises_iff hsized hapart)
    (fun _ _ h hapart => apart_step h.2 hapart) apart_initial

/-- In every run in which what nodes are handed fits, they recognise their own floods if and only if
nothing of their own comes back to them: no flooded packet that their tables do not know, and no
inverse packet. -/
theorem recognises_run_iff (z : Zlib) (pids : List Int32) (hs : List Happening)
    (hsized : Steps (step z) (fun w h => h.Sized w) (start pids) hs) :
    Steps (step z) (Recognises z) (start pids) hs ↔
      Steps (step z) (fun w h => ¬ w.Echoed h) (start pids) hs := by
  have hiff := steps_recognises_iff (z := z) pids hs
  constructor
  · exact fun h => (steps_and.mp (hiff.mp (steps_and.mpr ⟨hsized, h⟩))).2
  · exact fun h => (steps_and.mp (hiff.mpr (steps_and.mpr ⟨hsized, h⟩))).2

/-- The process of node 0 has reported, and has to send a message far away; a neighbour floods the
message back. -/
def echoing : List Happening :=
  [reportAs 0 7 8, Epochs.askFar, .next .server (.node 0), .next (.node 0) (.node 1),
    .next (.node 1) (.node 0)]

theorem steps_echoing :
    Steps (step .stored) (fun w h => h.Proper w ∧ h.Spares w) (start forked) echoing := by
  decide +kernel

theorem recognises_run_iff_echoing :
    Steps (step .stored) (Recognises .stored) (start forked) echoing ↔
      Steps (step .stored) (fun w h => ¬ w.Echoed h) (start forked) echoing :=
  recognises_run_iff .stored forked echoing (sized_run .stored forked echoing steps_echoing)

/-- The node takes the first copy that comes back for the flood of another one. -/
theorem recognises_run_echoed :
    ¬ ∀ (z : Zlib) (pids : List Int32) (hs : List Happening), (∀ h ∈ hs, h.InOrder) →
      Steps (step z) Happening.Proper (start pids) hs →
        Steps (step z) (Recognises z) (start pids) hs := by
  intro hclaim
  have hinOrder : ∀ h ∈ echoing, h.InOrder := by
    simp [echoing, reportAs, Epochs.askFar, Happening.next, Happening.InOrder]
  have hrecognises := hclaim .stored forked echoing hinOrder (steps_and.mp steps_echoing).1
  have hsized := sized_run .stored forked echoing steps_echoing
  have hquiet := (steps_recognises_iff forked echoing).mp (steps_and.mpr ⟨hsized, hrecognises⟩)
  have hnone := (steps_and.mp hquiet).2
  revert hnone
  decide +kernel

end Network

end MeshNet
