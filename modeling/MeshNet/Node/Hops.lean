import MeshNet.Node.Reset

/-!
# Next hops that cannot be reached

A packet on its way is written to the next hop that the table names. There are four places where
this is done, and in two of them the route is deleted where it fails.
-/

namespace MeshNet
open Library

/-- At its `k`th attempt the node gets a frame through to a port: it is connected to it or has a
slot for a connection that comes about, and the write succeeds. -/
def Link.Reaches (net : Net) (l : Link) (k : Nat) (port : UInt16) : Prop :=
  (l.isOpen port = true ∨ (∃ c ∈ l.connections, c.fd = -1) ∧ 0 < net.connect k port) ∧
    net.write k port = true

instance (net : Net) (l : Link) (k : Nat) (port : UInt16) : Decidable (l.Reaches net k port) := by
  unfold Link.Reaches; infer_instance

/-- Where a packet is written to the next hop of a route. -/
inductive Site where
  | serverSend
  | nodeSend
  | inverseForwarded
  | inverseStarted
  deriving DecidableEq

/-- The step sends a `REQUEST_ROUTE_INVERSE`. -/
def Site.Returns (site : Site) : Prop := site = .inverseForwarded ∨ site = .inverseStarted

instance (site : Site) : Decidable site.Returns := by unfold Site.Returns; infer_instance

/-- A packet for `dest` is written to `next`. -/
structure Hop where
  site : Site
  dest : UInt8
  next : UInt8
  deriving DecidableEq

namespace Node

/-- The hop of a message that is not for the node itself. -/
def sending (n : Node) (site : Site) (p : NodePacket) : Option Hop :=
  let next := n.routing.nextAddr p.receiverAddr
  if isValidCrc p = true ∧ p.receiverAddr ≠ n.addr ∧ next ≠ noAddr then
    some ⟨site, p.receiverAddr, next⟩
  else none

/-- The hop of an inverse packet that is not back yet. -/
def forwarding (n : Node) (p : NodePacket) : Option Hop :=
  let routing := n.routing.learnInverse p.receiverAddr p.localSenderAddr p.timeToLive
  let next := routing.nextAddr p.senderAddr
  if isValidCrc p = true ∧ p.senderAddr ≠ n.addr ∧ next ≠ noAddr then
    some ⟨.inverseForwarded, p.senderAddr, next⟩
  else none

/-- The first hop of the inverse packet that a flooded packet is answered with. -/
def answering (n : Node) (p : NodePacket) : Option Hop :=
  let next := (n.takeIn p).routing.nextAddr p.senderAddr
  if p.Valid ∧ ¬ n.messages.Taken p.appPayload.id ∧ p.receiverAddr = n.addr ∧
      ¬ (n.takeIn p).messages.Answered p.appPayload.id ∧ next ≠ noAddr then
    some ⟨.inverseStarted, p.senderAddr, next⟩
  else none

/-- The hop of the packet that a request makes the node send on. -/
def hop? (n : Node) (i : Env × List UInt8) : Option Hop :=
  match receive i.1.heap i.1.stack i.2 with
  | none => none
  | some incoming =>
    match incoming.sender, incoming.parsed.req, incoming.parsed.payload with
    | .known .server, .known .send, some (.packet p) => n.sending .serverSend p
    | .known .node, .known .send, some (.packet p) => n.sending .nodeSend p
    | .known .node, .known .routeInverse, some (.packet p) => n.forwarding p
    | .known .node, .known .routeDirect, some (.packet p) => n.answering p
    | _, _, _ => none

end Node

/-- No route to the destination of the packet leads through its next hop any more. -/
def Forgets (z : Zlib) (n : Node) (i : Env × List UInt8) (f : Hop) : Prop :=
  (nodeStep z n i).routing.nextAddr f.dest ≠ f.next

/-! ## The failed attempt -/

variable {z : Zlib} {env : Env} {net : Net} {l : Link} {port : UInt16} {bytes : List UInt8}
  {n : Node} {p : NodePacket} {f : Hop} {i : Env × List UInt8}

theorem getConnAndSend_fst_iff :
    (l.getConnAndSend net port bytes).1 = true ↔ l.Reaches net l.trace.length port := by
  unfold Link.Reaches
  obtain ⟨hopen, hfd, heq⟩ | ⟨hclosed, i, c, hi, hfree, hfd, heq⟩ | ⟨hclosed, heq, hno⟩ :=
    Link.getConn_cases net l port
  · simp [Link.getConnAndSend, heq, hopen, Int.le_of_lt hfd]
  · have hslot : ∃ c ∈ l.connections, c.fd = -1 := ⟨c, List.mem_of_getElem? hi, hfree⟩
    simp [Link.getConnAndSend, heq, hclosed, hfd, hslot, Int.le_of_lt hfd]
  · have hnone : ¬ ((∃ c ∈ l.connections, c.fd = -1) ∧ 0 < net.connect l.trace.length port) := by
      rintro ⟨⟨c, hc, hfree⟩, hfd⟩
      obtain hfull | hno := hno
      · exact hfull c hc hfree
      · omega
    simp [Link.getConnAndSend, heq, hclosed, hnone]

theorem sendPacket_of_unreached {addr : UInt8} {req : Request}
    (h : ¬ l.Reaches env.net l.trace.length (nodePort addr)) :
    (sendPacket env l addr req p).1 = false ∧
      (sendPacket env l addr req p).2.trace = l.trace ++
        [.send (nodePort addr) ((createPacket req .node p).sent env.stack) false] := by
  have hfail : (sendPacket env l addr req p).1 = false :=
    Bool.eq_false_iff.mpr fun hok => h (getConnAndSend_fst_iff.mp hok)
  refine ⟨hfail, ?_⟩
  rw [← hfail]
  exact Link.getConnAndSend_trace

/-- The node does nothing but the failed attempt. Where it was to send an inverse packet there is no
route to the destination any more, and else the one that there was. -/
structure GivesUp (n n' : Node) (f : Hop) : Prop where
  events : ∃ bytes, n'.link.trace = n.link.trace ++ [.send (nodePort f.next) bytes false]
  route : n'.routing.nextAddr f.dest = if f.site.Returns then noAddr else f.next

theorem nextAddr_del_self (t : RoutingTable) (d : UInt8) : (t.del d).nextAddr d = noAddr := by
  rw [RoutingTable.nextAddr_eq, RoutingTable.get_del]
  split
  · rfl
  · rename_i hd
    rw [RoutingTable.get_of_le t d (Nat.not_lt.mp fun hlt => hd ⟨rfl, hlt⟩)]
    rfl

theorem givesUp_handleServerSend (h : n.sending .serverSend p = some f)
    (hfail : ¬ n.link.Reaches env.net n.link.trace.length (nodePort f.next)) :
    GivesUp n (handleServerSend z env n .send p).2 f := by
  obtain ⟨⟨hcrc, haddr, hnext⟩, heq⟩ := Option.ite_none_right_eq_some.mp h
  cases heq
  simp only [handleServerSend, hcrc, Bool.not_true, Bool.false_eq_true, if_false, haddr, hnext]
  exact ⟨⟨_, (sendPacket_of_unreached hfail).2⟩, rfl⟩

theorem givesUp_handleNodeSend (h : n.sending .nodeSend p = some f)
    (hfail : ¬ n.link.Reaches env.net n.link.trace.length (nodePort f.next)) :
    GivesUp n (handleNodeSend z env n p).2 f := by
  obtain ⟨⟨hcrc, haddr, hnext⟩, heq⟩ := Option.ite_none_right_eq_some.mp h
  cases heq
  simp only [handleNodeSend, sendNext, hcrc, Bool.not_true, Bool.false_eq_true, if_false, haddr,
    hnext]
  exact ⟨⟨_, (sendPacket_of_unreached hfail).2⟩, rfl⟩

theorem givesUp_handleNodeRouteInverse (h : n.forwarding p = some f)
    (hfail : ¬ n.link.Reaches env.net n.link.trace.length (nodePort f.next)) :
    GivesUp n (handleNodeRouteInverse env n p).2 f := by
  obtain ⟨⟨hcrc, haddr, hnext⟩, heq⟩ := Option.ite_none_right_eq_some.mp h
  cases heq
  have hsent (q : NodePacket) : (sendPacket env n.link _ .routeInverse q).1 = false :=
    (sendPacket_of_unreached hfail).1
  simp only [handleNodeRouteInverse, hcrc, Bool.not_true, Bool.false_eq_true, if_false, haddr,
    hnext, hsent, Bool.not_false, if_true]
  exact ⟨⟨_, (sendPacket_of_unreached hfail).2⟩, nextAddr_del_self _ _⟩

theorem givesUp_handleNodeRouteDirect (h : n.answering p = some f)
    (hfail : ¬ n.link.Reaches env.net n.link.trace.length (nodePort f.next)) :
    GivesUp n (handleNodeRouteDirect z env n p).2 f := by
  obtain ⟨⟨hvalid, htaken, haddr, hanswered, hnext⟩, heq⟩ := Option.ite_none_right_eq_some.mp h
  cases heq
  have hsent : (sendPacket env (n.takeIn p).link ((n.takeIn p).routing.nextAddr p.senderAddr)
      .routeInverse (p.inverse (n.takeIn p).addr)).1 = false := (sendPacket_of_unreached hfail).1
  rw [handleNodeRouteDirect_of_not_taken hvalid htaken, if_pos haddr,
    routeDirectHandleDelivered_of_not_answered hvalid.2 hanswered]
  dsimp only
  rw [if_neg hnext]
  simp only [hsent, Bool.not_false, if_true]
  exact ⟨⟨_, (sendPacket_of_unreached hfail).2⟩, nextAddr_del_self _ _⟩

theorem givesUp_nodeStep (h : n.hop? i = some f)
    (hfail : ¬ n.link.Reaches i.1.net n.link.trace.length (nodePort f.next)) :
    GivesUp n (nodeStep z n i) f := by
  unfold Node.hop? at h
  unfold nodeStep nodeHandleRequest
  split at h
  · cases h
  · rename_i incoming hincoming
    simp only [hincoming]
    split at h
    · simp only [nodeListenerHandle, nodeHandleServer, *]
      exact givesUp_handleServerSend h hfail
    · simp only [nodeListenerHandle, nodeHandleNode, *]
      exact givesUp_handleNodeSend h hfail
    · simp only [nodeListenerHandle, nodeHandleNode, *]
      exact givesUp_handleNodeRouteInverse h hfail
    · simp only [nodeListenerHandle, nodeHandleNode, *]
      exact givesUp_handleNodeRouteDirect h hfail
    · cases h

/-- A packet is sent on only along a route. -/
theorem next_ne_noAddr (h : n.hop? i = some f) : f.next ≠ noAddr := by
  unfold Node.hop? at h
  split at h
  · cases h
  · split at h
    · obtain ⟨⟨-, -, hnext⟩, heq⟩ := Option.ite_none_right_eq_some.mp h
      cases heq
      exact hnext
    · obtain ⟨⟨-, -, hnext⟩, heq⟩ := Option.ite_none_right_eq_some.mp h
      cases heq
      exact hnext
    · obtain ⟨⟨-, -, hnext⟩, heq⟩ := Option.ite_none_right_eq_some.mp h
      cases heq
      exact hnext
    · obtain ⟨⟨-, -, -, -, hnext⟩, heq⟩ := Option.ite_none_right_eq_some.mp h
      cases heq
      exact hnext
    · cases h

/-- A next hop that cannot be reached is forgotten if and only if an inverse packet was to be sent
to it. -/
theorem forgets_iff (z : Zlib) (n : Node) (i : Env × List UInt8) (f : Hop) (h : n.hop? i = some f)
    (hfail : ¬ n.link.Reaches i.1.net n.link.trace.length (nodePort f.next)) :
    Forgets z n i f ↔ f.site.Returns := by
  rw [Forgets, (givesUp_nodeStep h hfail).route]
  have hnext := next_ne_noAddr h
  split
  · exact iff_of_true hnext.symm ‹_›
  · exact iff_of_false (fun hne => hne rfl) ‹_›

/-! ## A message from the server -/

/-- Node 2 hears of node 1 through a flooded packet, which it cannot hand on to its neighbours. -/
def hearing : Env × List UInt8 :=
  (.zeroed .deaf, (createPacket .routeDirect .node (addressed 8)).sent fun _ => 0)

/-- The server has a message for node 1, which nobody can connect to. -/
def commanding : Env × List UInt8 :=
  (.zeroed .deaf, (createPacket .send .server (NodePacket.renewed
    ⟨2, 1, 0, 0, ⟨.known .delivery, 0, 0, 9, 0, .zero, 0⟩, 0⟩)).sent fun _ => 0)

def heard : Node := run (nodeStep .stored) (.start 2) [hearing]

theorem hop_commanding : heard.hop? commanding = some ⟨.serverSend, 1, 1⟩ ∧
    ¬ heard.link.Reaches commanding.1.net heard.link.trace.length (nodePort 1) := by
  decide +kernel

theorem forgets_iff_commanding :
    Forgets .stored heard commanding ⟨.serverSend, 1, 1⟩ ↔ Site.serverSend.Returns :=
  forgets_iff .stored heard commanding ⟨.serverSend, 1, 1⟩ hop_commanding.1 hop_commanding.2

/-- A message of the server that cannot be sent on leaves the route as it is. -/
theorem forgets_commanding :
    ¬ ∀ (z : Zlib) (addr : UInt8) (is : List (Env × List UInt8)) (i : Env × List UInt8) (f : Hop),
      (run (nodeStep z) (.start addr) is).hop? i = some f →
      ¬ (run (nodeStep z) (.start addr) is).link.Reaches i.1.net
        (run (nodeStep z) (.start addr) is).link.trace.length (nodePort f.next) →
      Forgets z (run (nodeStep z) (.start addr) is) i f := by
  intro hclaim
  have hforgets := hclaim .stored 2 [hearing] commanding ⟨.serverSend, 1, 1⟩ hop_commanding.1
    hop_commanding.2
  exact hforgets (givesUp_nodeStep hop_commanding.1 hop_commanding.2).route

end MeshNet
