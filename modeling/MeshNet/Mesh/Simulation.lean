import MeshNet.Mesh.System
import MeshNet.Node.Healthy

/-!
# The mesh does what the protocol says

On a healthy network the nodes and the server together take the steps of the protocol: to every
delivery of a frame in the mesh belongs the delivery of the packet it stands for.
-/

namespace MeshNet
open Library

/-! ## Only neighbours talk to each other -/

variable {a b d x : UInt8} {k : Int8} {t : RoutingTable} {c : Core}

/-- All routes lead to neighbours of `a`. -/
def RoutingTable.Near (a : UInt8) (t : RoutingTable) : Prop :=
  ∀ d, t.nextAddr d ≠ noAddr → Adjacent a (t.nextAddr d)

theorem near_fillDefault : RoutingTable.fillDefault.Near a := by
  intro d hd
  simp at hd

theorem near_setAddr (h : t.Near a) (hx : Adjacent a x) : (t.setAddr d x k).Near a := by
  intro e he
  rw [RoutingTable.nextAddr_eq, RoutingTable.get_setAddr] at he ⊢
  split at he
  · rw [if_pos ‹_›]
    exact hx
  · rw [if_neg ‹_›]
    rw [← RoutingTable.nextAddr_eq] at he ⊢
    exact h e he

theorem near_learnDirect (h : t.Near a) (hx : Adjacent a x) : (t.learnDirect d x k).Near a := by
  obtain ⟨heq, -⟩ | ⟨heq, -, -⟩ := RoutingTable.learnDirect_cases (t := t) d x k
  · rwa [heq]
  · rw [heq]
    exact near_setAddr h hx

theorem near_takeIn {n : Node} {p : NodePacket} (h : n.routing.Near n.addr)
    (hx : Adjacent n.addr p.localSenderAddr) : (n.takeIn p).routing.Near n.addr := by
  rw [Node.routing_takeIn]
  exact near_learnDirect h hx

theorem near_learnInverse (h : t.Near a) (hx : Adjacent a x) : (t.learnInverse d x k).Near a := by
  obtain ⟨heq, -⟩ | ⟨heq, -, -⟩ := RoutingTable.learnInverse_cases (t := t) d x k
  · rwa [heq]
  · rw [heq]
    exact near_setAddr h hx

theorem adjacent_of_mem_flood {sender receiver : UInt8} {id : UInt16} {o : UInt8 × Msg}
    (h : o ∈ Core.flood a sender receiver k id) :
    Adjacent a o.1 ∧ o.2 = .direct sender receiver (k - 1) id := by
  obtain ⟨port, hport, rfl⟩ := List.mem_map.mp h
  obtain ⟨b, rfl, hadj⟩ := exists_of_mem_fillNeighborsPort hport
  rw [nodeAddr_nodePort]
  exact ⟨hadj, rfl⟩

/-- Where a packet comes from: the server sends requests only, nodes are neighbours. -/
def FromNear (src : Peer) (b : UInt8) (msg : Msg) : Prop :=
  match src with
  | .server => InMesh b ∧ ∃ receiver id, msg = .send b receiver id
  | .node a => Adjacent a b

/-- Routes lead to neighbours, and packets come from where they may. -/
structure Protocol.Local (s : Protocol) : Prop where
  routes : ∀ a, (s.core a).routing.Near a
  flights : ∀ src b, ∀ f ∈ s.wire src b, FromNear src b f.packet

theorem FromNear.inMesh {src : Peer} {msg : Msg} (h : FromNear src b msg) : InMesh b := by
  cases src with
  | server => exact h.1
  | node a => exact Adjacent.inMesh h

theorem near_deliver {sender receiver : UInt8} {id : UInt16} (hc : c.routing.Near b) :
    (c.deliver sender receiver id).1.routing.Near b ∧
      ∀ o ∈ (c.deliver sender receiver id).2, Adjacent b o.1 := by
  obtain ⟨-, heq⟩ | ⟨-, -, heq⟩ | ⟨-, hnext, heq⟩ :=
    Core.deliver_cases c sender receiver id <;>
    rw [heq]
  · exact ⟨hc, nofun⟩
  · exact ⟨hc, nofun⟩
  · exact ⟨hc, by simpa using hc sender hnext⟩

/-- A node that knows neighbours only, and hears from neighbours, sends to neighbours. -/
theorem near_react {src : Peer} {msg : Msg} (hc : c.routing.Near b) (h : FromNear src b msg) :
    (c.react b src.addr msg).1.routing.Near b ∧
      ∀ o ∈ (c.react b src.addr msg).2, Adjacent b o.1 := by
  have hsrc : (∃ receiver id, msg = .send b receiver id) ∨ Adjacent b src.addr := by
    cases src with
    | server => exact .inl h.2
    | node a => exact .inr (Adjacent.symm h)
  cases msg with
  | send sender receiver id =>
    obtain ⟨-, heq⟩ | ⟨-, -, heq⟩ | ⟨-, hnext, heq⟩ :=
      Core.send_cases b c sender receiver id <;>
      rw [Core.react, heq]
    · exact ⟨hc, nofun⟩
    · exact ⟨hc, fun o ho => (adjacent_of_mem_flood ho).1⟩
    · exact ⟨hc, by simpa using hc receiver hnext⟩
  | direct sender receiver timeToLive id =>
    have hlearn : (c.takeIn src.addr sender timeToLive id).routing.Near b := by
      rw [Core.routing_takeIn]
      exact near_learnDirect hc (hsrc.resolve_left nofun)
    obtain ⟨-, heq⟩ | ⟨-, -, -, heq⟩ | ⟨-, -, -, heq⟩ :=
      Core.direct_cases b c src.addr sender receiver timeToLive id <;>
      rw [Core.react, heq]
    · exact ⟨hc, nofun⟩
    · exact near_deliver hlearn
    · exact ⟨hlearn, fun o ho => (adjacent_of_mem_flood ho).1⟩
  | inverse sender receiver timeToLive id =>
    have hlearn : (c.learn src.addr receiver timeToLive).routing.Near b := by
      rw [Core.routing_learn]
      exact near_learnInverse hc (hsrc.resolve_left nofun)
    obtain ⟨-, heq⟩ | ⟨-, hnext, heq⟩ :=
      Core.inverse_cases b c src.addr sender receiver timeToLive id <;>
      rw [Core.react, heq]
    · exact ⟨hlearn, nofun⟩
    · exact ⟨hlearn, by simpa using hlearn sender hnext⟩

theorem local_start (id : UInt16) : (Protocol.start id).Local :=
  ⟨fun _ => near_fillDefault, nofun⟩

theorem local_step {s : Protocol} (h : s.Local) (l : Protocol.Label) : (s.step l).Local := by
  cases l with
  | client sender receiver =>
    refine ⟨h.routes, fun src b f hf => ?_⟩
    obtain hold | ⟨hmesh, rfl, hpacket, -⟩ := Protocol.mem_wire_client hf
    · exact h.flights src b f hold
    · exact ⟨hmesh, _, _, hpacket⟩
  | deliver src dst =>
    cases hwire : s.wire src dst with
    | nil => rwa [Protocol.step_deliver_nil hwire]
    | cons f fs =>
      have hf : FromNear src dst f.packet := h.flights src dst f (hwire ▸ List.mem_cons_self)
      obtain ⟨hnear, hout⟩ := near_react (h.routes dst) hf
      refine ⟨Protocol.forall_core_deliver (P := fun a c => c.routing.Near a) hwire hnear
        fun a _ => h.routes a, fun src' b g hg => ?_⟩
      obtain hold | ⟨rfl, hnew, -⟩ := Protocol.mem_wire_deliver hwire hg
      · exact h.flights src' b g hold
      · exact hout (b, g.packet) hnew

/-! ## What a frame stands for -/

/-- The frames by which packets go over a connection from `src`. -/
inductive FrameOf : Peer → List UInt8 → Msg → Prop
  | request {q : NodePacket} (hq : q.Sound) (buf : Nat → UInt8) :
      FrameOf .server ((createPacket .send .server q).sent buf)
        (.send q.senderAddr q.receiverAddr q.appPayload.id)
  | send {a : UInt8} {q : NodePacket} (hq : q.Sound) (buf : Nat → UInt8) :
      FrameOf (.node a) ((createPacket .send .node q).sent buf)
        (.send q.senderAddr q.receiverAddr q.appPayload.id)
  | direct {a : UInt8} {q : NodePacket} (hq : q.Sound) (hlocal : q.localSenderAddr = a)
      (buf : Nat → UInt8) :
      FrameOf (.node a) ((createPacket .routeDirect .node q).sent buf)
        (.direct q.senderAddr q.receiverAddr q.timeToLive q.appPayload.id)
  | inverse {a : UInt8} {q : NodePacket} (hq : q.Sound) (hlocal : q.localSenderAddr = a)
      (buf : Nat → UInt8) :
      FrameOf (.node a) ((createPacket .routeInverse .node q).sent buf)
        (.inverse q.senderAddr q.receiverAddr q.timeToLive q.appPayload.id)

/-- The events of a node by which it sends the packets `out` and otherwise talks to its apps and to
the server. -/
inductive Sends (a : UInt8) : List Event → List (UInt8 × Msg) → Prop
  | nil : Sends a [] []
  | app {es : List Event} {out : List (UInt8 × Msg)} (given left : AppPayload) (accepted : Bool)
      (h : Sends a es out) : Sends a (.app given accepted left :: es) out
  | notify {es : List Event} {out : List (UInt8 × Msg)} (notify : Notify) (buf : Nat → UInt8)
      (h : Sends a es out) :
      Sends a (.send serverPort ((createNotify .node notify).sent buf) true :: es) out
  | packet {es : List Event} {out : List (UInt8 × Msg)} {bytes : List UInt8} {msg : Msg}
      (b : UInt8) (hframe : FrameOf (.node a) bytes msg) (h : Sends a es out) :
      Sends a (.send (nodePort b) bytes true :: es) ((b, msg) :: out)

/-- The id of the message that an app was given. -/
def Event.appId? : Event → Option UInt16
  | .app given _ _ => some given.id
  | _ => none

def Node.core (n : Node) : Core :=
  ⟨n.routing, n.messages, n.link.trace.filterMap Event.appId?⟩

variable {z : Zlib} {env : Env} {n n' : Node} {p : NodePacket} {es : List Event}
  {out : List (UInt8 × Msg)}

theorem sends_flood {bytes : List UInt8} {msg : Msg} (hframe : FrameOf (.node a) bytes msg)
    {ports : List UInt16} (hports : ∀ port ∈ ports, ∃ b, port = nodePort b) :
    Sends a (ports.map (.send · bytes true)) (ports.map fun port => (nodeAddr port, msg)) := by
  induction ports with
  | nil => exact .nil
  | cons port ports ih =>
    obtain ⟨b, rfl⟩ := hports port List.mem_cons_self
    rw [List.map_cons, List.map_cons, nodeAddr_nodePort]
    exact .packet b hframe (ih fun q hq => hports q (List.mem_cons_of_mem _ hq))

/-- The node `n` becomes `n'` and sends what `r` says. -/
structure Simulates (n n' : Node) (es : List Event) (r : Core × List (UInt8 × Msg)) : Prop where
  does : n.link.Does n.ports n'.link es
  sends : Sends n.addr es r.2
  core : n'.core = r.1
  host : n.SameHost n'

theorem Simulates.fit {r : Core × List (UInt8 × Msg)} (h : Simulates n n' es r) (hn : n.Fit) :
    n'.Fit := by
  have hports : n'.ports = n.ports := by rw [Node.ports, Node.neighbors, h.host.1]; rfl
  refine ⟨?_, ?_⟩
  · rw [h.host.1]
    exact hn.inMesh
  · rw [hports]
    exact h.does.roomy

/-! ## Handler by handler -/

theorem core_eq {ports : List UInt16} (h : n.link.Does ports n'.link es) :
    n'.core = ⟨n'.routing, n'.messages, n.core.handled ++ es.filterMap Event.appId?⟩ := by
  simp only [Node.core, h.trace, List.filterMap_append]

/-- No app was given anything. -/
theorem core_of_silent {ports : List UInt16} (h : n.link.Does ports n'.link es)
    (hes : es.filterMap Event.appId? = []) :
    n'.core = ⟨n'.routing, n'.messages, n.core.handled⟩ := by
  rw [core_eq h, hes, List.append_nil]

theorem appId?_flood (ports : List UInt16) (bytes : List UInt8) :
    (ports.map (Event.send · bytes true)).filterMap Event.appId? = [] := by
  induction ports with
  | nil => rfl
  | cons port ports ih => exact ih

section
variable (hnet : env.net.Healthy) (hn : n.Fit) (t : RoutingTable) (m : MessageTable)
include hnet hn

/-- A node that sends the packets with which a flood goes on, whatever it has written to its tables
before. -/
theorem simulates_flood (hp : p.appPayload.Fits) (hlocal : p.localSenderAddr = n.addr) :
    ∃ es, Simulates n
      { n with
        messages := m
        routing := t
        link := n.link.broadcastRoute env n.neighbors p false } es
      (⟨t, m, n.core.handled⟩,
        Core.flood n.addr p.senderAddr p.receiverAddr p.timeToLive p.appPayload.id) := by
  have hdoes := does_broadcastRoute (p := p) hnet hn
  refine ⟨_, hdoes, sends_flood
    (.direct (q := NodePacket.renewed { p with timeToLive := p.timeToLive - 1 })
      (sound_renewed (p := { p with timeToLive := p.timeToLive - 1 }) hp) hlocal _)
    fun port hport => ?_, core_of_silent hdoes (appId?_flood _ _), rfl, rfl⟩
  obtain ⟨b, hb, -⟩ := exists_of_mem_fillNeighborsPort hport
  exact ⟨b, hb⟩

/-- A node that sends one packet to a neighbour. -/
theorem simulates_sendPacket {cmd : Request} {msg : Msg} (hadj : Adjacent n.addr a)
    (hframe : FrameOf (.node n.addr) ((createPacket cmd .node p).sent env.stack) msg) :
    ∃ es, Simulates n
      { n with messages := m, routing := t, link := (sendPacket env n.link a cmd p).2 } es
      (⟨t, m, n.core.handled⟩, [(a, msg)]) := by
  obtain ⟨-, hdoes⟩ := does_sendPacket (p := p) hnet hn (.refl hn.roomy) hadj cmd
  exact ⟨_, hdoes, .packet _ hframe .nil, core_of_silent hdoes rfl, rfl, rfl⟩

end

theorem handleServerSend_eq (hcrc : isValidCrc p = true) (cmd : Request) :
    (handleServerSend z env n cmd p).2 =
      let a := nodeAppSetupDelivery z env.deflated p.appPayload
      if p.receiverAddr = n.addr then
        { n with link := (handToAppAndNotify z env n n.link a).2.2 }
      else if n.routing.nextAddr p.receiverAddr = noAddr then
        { n with
          link := n.link.broadcastRoute env n.neighbors
            { p with appPayload := a, localSenderAddr := n.addr, timeToLive := ttl } false }
      else
        { n with
          link := (sendPacket env n.link (n.routing.nextAddr p.receiverAddr) cmd
            (NodePacket.renewed { p with appPayload := a })).2 } := by
  simp only [handleServerSend, hcrc, Bool.not_true, Bool.false_eq_true, if_false]
  rw [apply_ite Prod.snd, apply_ite Prod.snd]
  rfl

/-- A request of the server. -/
theorem simulates_handleServerSend (hnet : env.net.Healthy) (hn : n.Fit) (hp : p.Sound)
    (hnear : n.routing.Near n.addr) :
    ∃ es, Simulates n (handleServerSend z env n .send p).2 es
      (n.core.send n.addr p.senderAddr p.receiverAddr p.appPayload.id) := by
  have hfits : (nodeAppSetupDelivery z env.deflated p.appPayload).Fits := fits_setupDelivery hp.fits
  have hid : (nodeAppSetupDelivery z env.deflated p.appPayload).id = p.appPayload.id :=
    id_setupDelivery
  rw [handleServerSend_eq hp.crc]
  generalize nodeAppSetupDelivery z env.deflated p.appPayload = a at hfits hid
  dsimp only
  rw [← hid]
  obtain ⟨hto, heq⟩ | ⟨hto, hnext, heq⟩ | ⟨hto, hnext, heq⟩ :=
    Core.send_cases n.addr n.core p.senderAddr p.receiverAddr a.id
  · rw [heq, if_pos hto]
    obtain ⟨accepted, left, notify, hdoes⟩ :=
      does_handToAppAndNotify (z := z) hnet hn (.refl hn.roomy) a
    exact ⟨_, hdoes, .app _ _ _ (.notify _ _ .nil), (core_eq hdoes).trans rfl, rfl, rfl⟩
  · have hnone : n.routing.nextAddr p.receiverAddr = noAddr := hnext
    rw [heq, if_neg hto, if_pos hnone]
    exact simulates_flood hnet hn n.routing n.messages (p := { p with
      appPayload := a, localSenderAddr := n.addr, timeToLive := ttl }) hfits rfl
  · have hsome : n.routing.nextAddr p.receiverAddr ≠ noAddr := hnext
    rw [heq, if_neg hto, if_neg hsome]
    have hframe : NodePacket.Sound (NodePacket.renewed { p with appPayload := a }) :=
      sound_renewed hfits
    exact simulates_sendPacket hnet hn n.routing n.messages (hnear _ hsome) (.send hframe _)

theorem handleNodeSend_eq (hcrc : isValidCrc p = true) :
    (handleNodeSend z env n p).2 =
      if p.receiverAddr = n.addr then (nodeHandleAppRequest z env n p).2
      else if n.routing.nextAddr p.receiverAddr = noAddr then
        { n with
          link := n.link.broadcastRoute env n.neighbors
            { p with localSenderAddr := n.addr, timeToLive := ttl } false }
      else
        { n with
          link := (sendPacket env n.link (n.routing.nextAddr p.receiverAddr) .send p).2 } := by
  simp only [handleNodeSend, sendNext, hcrc, Bool.not_true, Bool.false_eq_true, if_false]
  rw [apply_ite Prod.snd, apply_ite Prod.snd]

/-- A message on its way along a route. -/
theorem simulates_handleNodeSend (hnet : env.net.Healthy) (hn : n.Fit) (hp : p.Sound)
    (hnear : n.routing.Near n.addr) :
    ∃ es, Simulates n (handleNodeSend z env n p).2 es
      (n.core.send n.addr p.senderAddr p.receiverAddr p.appPayload.id) := by
  rw [handleNodeSend_eq hp.crc]
  obtain ⟨hto, heq⟩ | ⟨hto, hnext, heq⟩ | ⟨hto, hnext, heq⟩ :=
    Core.send_cases n.addr n.core p.senderAddr p.receiverAddr p.appPayload.id
  · rw [heq, if_pos hto, nodeHandleAppRequest]
    dsimp only
    split_ifs
    · obtain ⟨accepted, left, notify, hdoes⟩ := does_handToAppAndNotify (z := z) hnet hn
        (does_notifyServer hnet hn (.refl hn.roomy) ⟨.known .gotMessage, p.appPayload.id⟩)
        p.appPayload
      exact ⟨_, hdoes, .notify _ _ (.app _ _ _ (.notify _ _ .nil)), (core_eq hdoes).trans rfl, rfl,
        rfl⟩
    · obtain ⟨accepted, left, notify, hdoes⟩ :=
        does_handToAppAndNotify (z := z) hnet hn (.refl hn.roomy) p.appPayload
      exact ⟨_, hdoes, .app _ _ _ (.notify _ _ .nil), (core_eq hdoes).trans rfl, rfl, rfl⟩
  · have hnone : n.routing.nextAddr p.receiverAddr = noAddr := hnext
    rw [heq, if_neg hto, if_pos hnone]
    exact simulates_flood hnet hn n.routing n.messages (p := { p with
      localSenderAddr := n.addr, timeToLive := ttl }) hp.fits rfl
  · have hsome : n.routing.nextAddr p.receiverAddr ≠ noAddr := hnext
    rw [heq, if_neg hto, if_neg hsome]
    exact simulates_sendPacket hnet hn n.routing n.messages (hnear _ hsome) (.send hp _)

/-- A node that does nothing. -/
theorem simulates_refl (hn : n.Fit) : Simulates n n [] (n.core, []) :=
  ⟨.refl hn.roomy, .nil, rfl, rfl, rfl⟩

theorem simulates_routeDirectHandleDelivered (hnet : env.net.Healthy) (hn : n.Fit) (hp : p.Sound)
    (hnear : n.routing.Near n.addr) :
    ∃ es, Simulates n (routeDirectHandleDelivered z env n p).2 es
      (n.core.deliver p.senderAddr p.receiverAddr p.appPayload.id) := by
  obtain ⟨hanswered, heq⟩ | ⟨hanswered, hnext, heq⟩ | ⟨hanswered, hnext, heq⟩ :=
    Core.deliver_cases n.core p.senderAddr p.receiverAddr p.appPayload.id
  · rw [heq, routeDirectHandleDelivered_of_answered hp.crc hanswered]
    exact ⟨_, simulates_refl hn⟩
  · have hnone : n.routing.nextAddr p.senderAddr = noAddr := hnext
    rw [heq, routeDirectHandleDelivered_of_not_answered hp.crc hanswered]
    dsimp only
    rw [if_pos hnone]
    exact ⟨_, .refl hn.roomy, .nil, rfl, rfl, rfl⟩
  · have hsome : n.routing.nextAddr p.senderAddr ≠ noAddr := hnext
    rw [heq, routeDirectHandleDelivered_of_not_answered hp.crc hanswered]
    dsimp only
    obtain ⟨hok, hdoes⟩ := does_sendPacket (p := p.inverse n.addr) hnet hn (.refl hn.roomy)
      (hnear _ hsome) .routeInverse
    obtain ⟨accepted, left, notify, hdoes⟩ :=
      does_handToAppAndNotify (z := z) hnet hn hdoes p.appPayload
    rw [if_neg hsome, hok]
    have hframe : (p.inverse n.addr).Sound := sound_renewed hp.fits
    exact ⟨_, hdoes, .packet _ (.inverse hframe rfl _) (.app _ _ _ (.notify _ _ .nil)),
      (core_eq hdoes).trans rfl, rfl, rfl⟩

theorem core_takeIn (n : Node) (p : NodePacket) : (n.takeIn p).core =
    n.core.takeIn p.localSenderAddr p.senderAddr p.timeToLive p.appPayload.id := by
  simp only [Node.core, Node.takeIn, Core.takeIn]

/-- A packet of a flood. -/
theorem simulates_handleNodeRouteDirect (hnet : env.net.Healthy) (hn : n.Fit) (hp : p.Sound)
    (hnear : n.routing.Near n.addr) (hsrc : Adjacent n.addr p.localSenderAddr) :
    ∃ es, Simulates n (handleNodeRouteDirect z env n p).2 es
      (n.core.direct n.addr p.localSenderAddr p.senderAddr p.receiverAddr p.timeToLive
        p.appPayload.id) := by
  obtain ⟨hdrop, heq⟩ | ⟨hpos, htaken, hto, heq⟩ | ⟨hpos, htaken, hto, heq⟩ :=
    Core.direct_cases n.addr n.core p.localSenderAddr p.senderAddr p.receiverAddr p.timeToLive
      p.appPayload.id
  · have hsame : (handleNodeRouteDirect z env n p).2 = n := by
      obtain hdead | htaken := hdrop
      · exact handleNodeRouteDirect_of_not_valid fun hv => by have := hv.1; grind
      · exact handleNodeRouteDirect_of_taken htaken
    rw [heq, hsame]
    exact ⟨_, simulates_refl hn⟩
  · have htakeIn : (n.takeIn p).Fit := ⟨hn.inMesh, hn.roomy⟩
    have hroutes : (n.takeIn p).routing.Near n.addr := near_takeIn hnear hsrc
    obtain ⟨es, hdoes, hsends, hcore, hhost⟩ :=
      simulates_routeDirectHandleDelivered (z := z) hnet htakeIn hp hroutes
    rw [core_takeIn] at hsends hcore
    rw [heq, handleNodeRouteDirect_of_not_taken ⟨hpos, hp.crc⟩ htaken, if_pos hto]
    exact ⟨es, hdoes, hsends, hcore, hhost⟩
  · rw [heq, handleNodeRouteDirect_of_not_taken ⟨hpos, hp.crc⟩ htaken, if_neg hto]
    exact simulates_flood hnet hn _ _ (p := { p with localSenderAddr := n.addr }) hp.fits rfl

theorem handleNodeRouteInverse_eq (hcrc : isValidCrc p = true) :
    (handleNodeRouteInverse env n p).2 =
      let n := { n with
        routing := n.routing.learnInverse p.receiverAddr p.localSenderAddr p.timeToLive }
      let nextAddr := n.routing.nextAddr p.senderAddr
      let sent := sendPacket env n.link nextAddr .routeInverse
        (NodePacket.renewed { p with localSenderAddr := n.addr, timeToLive := p.timeToLive - 1 })
      if p.senderAddr = n.addr then n
      else if nextAddr = noAddr then n
      else if !sent.1 then { n with routing := n.routing.del p.senderAddr, link := sent.2 }
      else { n with link := sent.2 } := by
  simp only [handleNodeRouteInverse, hcrc, Bool.not_true, Bool.false_eq_true, if_false]
  rw [apply_ite Prod.snd, apply_ite Prod.snd, apply_ite Prod.snd]
  rfl

theorem core_learn (n : Node) (src receiver : UInt8) (timeToLive : Int8) :
    n.core.learn src receiver timeToLive =
      ⟨n.routing.learnInverse receiver src timeToLive, n.messages, n.core.handled⟩ := by
  simp only [Node.core, Core.learn]

/-- A packet that goes back along the routes of a flood. -/
theorem simulates_handleNodeRouteInverse (hnet : env.net.Healthy) (hn : n.Fit) (hp : p.Sound)
    (hnear : n.routing.Near n.addr) (hsrc : Adjacent n.addr p.localSenderAddr) :
    ∃ es, Simulates n (handleNodeRouteInverse env n p).2 es
      (n.core.inverse n.addr p.localSenderAddr p.senderAddr p.receiverAddr p.timeToLive
        p.appPayload.id) := by
  rw [handleNodeRouteInverse_eq hp.crc]
  dsimp only
  have hlearn : (n.routing.learnInverse p.receiverAddr p.localSenderAddr p.timeToLive).Near
      n.addr := near_learnInverse hnear hsrc
  obtain ⟨hstop, heq⟩ | ⟨hback, hnext, heq⟩ :=
    Core.inverse_cases n.addr n.core p.localSenderAddr p.senderAddr p.receiverAddr p.timeToLive
      p.appPayload.id <;>
    rw [core_learn] at *
  · rw [heq]
    obtain hback | hnone := hstop
    · rw [if_pos hback]
      exact ⟨_, .refl hn.roomy, .nil, rfl, rfl, rfl⟩
    · rw [if_pos hnone, ite_self]
      exact ⟨_, .refl hn.roomy, .nil, rfl, rfl, rfl⟩
  · have hframe : NodePacket.Sound (NodePacket.renewed
        { p with localSenderAddr := n.addr, timeToLive := p.timeToLive - 1 }) :=
      sound_renewed hp.fits
    have hok := (does_sendPacket (p := NodePacket.renewed
        { p with localSenderAddr := n.addr, timeToLive := p.timeToLive - 1 }) hnet hn
      (.refl hn.roomy) (hlearn _ hnext) .routeInverse).1
    rw [heq, if_neg hback, if_neg hnext, hok]
    exact simulates_sendPacket hnet hn _ _ (hlearn _ hnext) (.inverse hframe rfl _)

/-- A node that handles a frame does what the protocol does with the packet it stands for. -/
theorem simulates_nodeStep {src : Peer} {bytes : List UInt8} {msg : Msg} (hnet : env.net.Healthy)
    (hn : n.Fit) (hnear : n.routing.Near n.addr) (hfrom : FromNear src n.addr msg)
    (hframe : FrameOf src bytes msg) :
    ∃ es, Simulates n (nodeStep z n (env, bytes)) es (n.core.react n.addr src.addr msg) := by
  cases hframe with
  | request hq buf =>
    rw [nodeStep_packet rfl hq.fits]
    exact simulates_handleServerSend hnet hn (hq.received env.heap) hnear
  | send hq buf =>
    rw [nodeStep_packet rfl hq.fits]
    exact simulates_handleNodeSend hnet hn (hq.received env.heap) hnear
  | direct hq hlocal buf =>
    subst hlocal
    rw [nodeStep_packet rfl hq.fits]
    exact simulates_handleNodeRouteDirect hnet hn (hq.received env.heap) hnear
      (Adjacent.symm hfrom)
  | inverse hq hlocal buf =>
    subst hlocal
    rw [nodeStep_packet rfl hq.fits]
    exact simulates_handleNodeRouteInverse hnet hn (hq.received env.heap) hnear
      (Adjacent.symm hfrom)

end MeshNet
