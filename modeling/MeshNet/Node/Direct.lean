import MeshNet.Node.Emissions

/-!
# The handling of flooded packets

What `handle_node_route_direct` comes to, case by case: a packet that is dropped, one whose id
the table says was handled, and one that is taken, which is delivered or flooded on.
-/

namespace MeshNet

/-- A copy that is not dropped for its time to live or for its checksum. -/
def NodePacket.Valid (p : NodePacket) : Prop := 0 < p.timeToLive ∧ isValidCrc p = true

instance (p : NodePacket) : Decidable p.Valid := by unfold NodePacket.Valid; infer_instance

/-- The table says that the message was handled. -/
def MessageTable.Taken (t : MessageTable) (id : UInt16) : Prop :=
  (t.lookup id).map (·.wasMessage) = some true

instance (t : MessageTable) (id : UInt16) : Decidable (t.Taken id) := by
  unfold MessageTable.Taken
  infer_instance

/-- The packet with its checksum renewed. -/
def NodePacket.renewed (p : NodePacket) : NodePacket := { p with crc := packetCrc p }

theorem isValidCrc_renewed {p : NodePacket} (h : p.appPayload.Fits) :
    isValidCrc p.renewed = true := by
  have hfits : p.renewed.appPayload.Fits := h
  rw [isValidCrc, beq_iff_eq, hfits.packetCrc]
  exact h.packetCrc.symm

/-- The node after it has registered a packet and learnt from it. -/
def Node.takeIn (n : Node) (p : NodePacket) : Node :=
  { n with
    messages := (n.messages.register p.appPayload.id).setWasMessageById p.appPayload.id true
    routing := n.routing.learnDirect p.senderAddr p.localSenderAddr p.timeToLive }

variable {z : Zlib} {env : Env} {n : Node} {p : NodePacket} {t : MessageTable} {id k : UInt16}

theorem Node.routing_takeIn (n : Node) (p : NodePacket) : (n.takeIn p).routing =
    n.routing.learnDirect p.senderAddr p.localSenderAddr p.timeToLive := by
  unfold Node.takeIn
  dsimp only

theorem MessageTable.Taken.ne_none (h : t.Taken id) : t.lookup id ≠ none := by
  intro hnone
  simp [Taken, hnone] at h

theorem not_taken_of_lookup (h : t.lookup id = none) : ¬ t.Taken id := fun ht => ht.ne_none h

theorem registerMessage_eq :
    registerMessage t id =
      if t.Taken id then (false, t) else (true, (t.register id).setWasMessageById id true) := by
  have hfst : (t.getWasMessageById id).1 = (t.lookup id).map (·.wasMessage) :=
    MessageTable.getFlag_fst _
  have hsnd : (t.getWasMessageById id).2 = t.register id := MessageTable.getFlag_snd _
  simp only [registerMessage, hfst, hsnd]
  change (if t.Taken id then _ else _) = _
  split
  · rename_i h
    rw [MessageTable.register_of_lookup h.ne_none]
  · rfl

/-! ## The cases -/

theorem handleNodeRouteDirect_of_not_valid (h : ¬ p.Valid) :
    (handleNodeRouteDirect z env n p).2 = n := by
  unfold handleNodeRouteDirect
  split
  · rfl
  · rename_i hpos
    have hcrc : isValidCrc p = false := by
      have : 0 < p.timeToLive := by grind
      simpa [NodePacket.Valid, this] using h
    rw [hcrc]
    rfl

theorem handleNodeRouteDirect_of_taken (h : n.messages.Taken p.appPayload.id) :
    (handleNodeRouteDirect z env n p).2 = n := by
  by_cases hv : p.Valid
  · have hpos : ¬ p.timeToLive ≤ 0 := by have := hv.1; grind
    simp [handleNodeRouteDirect, hpos, hv.2, registerMessage_eq, h]
  · exact handleNodeRouteDirect_of_not_valid hv

/-- A packet that is taken is delivered or flooded on. -/
theorem handleNodeRouteDirect_of_not_taken (hv : p.Valid)
    (h : ¬ n.messages.Taken p.appPayload.id) :
    (handleNodeRouteDirect z env n p).2 =
      if p.receiverAddr = n.addr then (routeDirectHandleDelivered z env (n.takeIn p) p).2
      else { n.takeIn p with
        link :=
          n.link.broadcastRoute env n.neighbors { p with localSenderAddr := n.addr } false } := by
  have hpos : ¬ p.timeToLive ≤ 0 := by have := hv.1; grind
  simp only [handleNodeRouteDirect, hpos, hv.2, registerMessage_eq, h, if_false, Bool.not_true,
    Bool.false_eq_true]
  split <;> rfl

/-- The flag by which the receiver knows that it has answered. -/
def MessageTable.Answered (t : MessageTable) (id : UInt16) : Prop :=
  (t.lookup id).map (·.stopInverse) = some true

instance (t : MessageTable) (id : UInt16) : Decidable (t.Answered id) := by
  unfold MessageTable.Answered
  infer_instance

/-- The packet that the receiver sends back. -/
def NodePacket.inverse (p : NodePacket) (addr : UInt8) : NodePacket :=
  NodePacket.renewed { p with timeToLive := ttl, localSenderAddr := addr }

/-- The receiver that has marked the message as answered. -/
def Node.answer (n : Node) (id : UInt16) : Node :=
  { n with messages := (n.messages.register id).setInverseById id true }

theorem MessageTable.Answered.ne_none (h : t.Answered id) : t.lookup id ≠ none := by
  intro hnone
  simp [Answered, hnone] at h

theorem getInverseById_eq (t : MessageTable) (id : UInt16) :
    t.getInverseById id = ((t.lookup id).map (·.stopInverse), t.register id) :=
  Prod.ext (MessageTable.getFlag_fst _) (MessageTable.getFlag_snd _)

theorem routeDirectHandleDelivered_of_answered (hcrc : isValidCrc p = true)
    (h : n.messages.Answered p.appPayload.id) :
    (routeDirectHandleDelivered z env n p).2 = n := by
  have hstop : (n.messages.lookup p.appPayload.id).map (·.stopInverse) = some true := h
  simp [routeDirectHandleDelivered, hcrc, getInverseById_eq, hstop,
    MessageTable.register_of_lookup h.ne_none]

theorem routeDirectHandleDelivered_of_not_answered (hcrc : isValidCrc p = true)
    (h : ¬ n.messages.Answered p.appPayload.id) :
    (routeDirectHandleDelivered z env n p).2 =
      let nextAddrToBack := n.routing.nextAddr p.senderAddr
      if nextAddrToBack = noAddr then n.answer p.appPayload.id
      else
        let sent := sendPacket env n.link nextAddrToBack .routeInverse (p.inverse n.addr)
        if !sent.1 then
          { n.answer p.appPayload.id with routing := n.routing.del p.senderAddr, link := sent.2 }
        else
          { n.answer p.appPayload.id with
            link := (handToAppAndNotify z env n sent.2 p.appPayload).2.2 } := by
  have hstop : (n.messages.lookup p.appPayload.id).map (·.stopInverse) ≠ some true := h
  simp only [routeDirectHandleDelivered, hcrc, getInverseById_eq, hstop, if_false, Bool.not_true,
    Bool.false_eq_true]
  rw [apply_ite Prod.snd, apply_ite Prod.snd]
  rfl

/-- An app call and the notification about it. -/
theorem trace_handToAppAndNotify (z : Zlib) (env : Env) (n : Node) (l : Link) (a : AppPayload) :
    ∃ left, (handToAppAndNotify z env n l a).2.2.trace = l.trace ++
      [.app a (handToAppAndNotify z env n l a).1 left,
        .send serverPort ((createNotify .node ⟨.known
            (if (handToAppAndNotify z env n l a).1 then .gotMessage else .fail), a.id⟩).sent
          env.stack)
          (handToAppAndNotify z env n l a).2.1] := by
  refine ⟨(nodeAppHandleRequest z env.inflated n.apps a).2, ?_⟩
  have htrace : (handToAppAndNotify z env n l a).2.2.trace =
      (handToApp z env n l a).2.trace ++ [_] := Link.getConnAndSend_trace
  rw [htrace, handToApp, Link.push_trace, List.append_assoc]
  rfl

/-- A message that the server sends the very node it is for goes to the app at once. -/
theorem handleServerSend_of_receiver {p : NodePacket} (cmd : Request) (hcrc : isValidCrc p = true)
    (hto : p.receiverAddr = n.addr) :
    (handleServerSend z env n cmd p).2.link = (handToAppAndNotify z env n n.link
      (nodeAppSetupDelivery z env.deflated p.appPayload)).2.2 := by
  simp only [handleServerSend, hcrc, hto, Bool.not_true, Bool.false_eq_true, if_false, if_true]

/-! ## The table afterwards -/

/-- What a delivery does to the table: the message is marked as answered, if it was not. -/
theorem messages_routeDirectHandleDelivered (hcrc : isValidCrc p = true) :
    (routeDirectHandleDelivered z env n p).2.messages =
      if n.messages.Answered p.appPayload.id then n.messages
      else (n.messages.register p.appPayload.id).setInverseById p.appPayload.id true := by
  by_cases h : n.messages.Answered p.appPayload.id
  · rw [routeDirectHandleDelivered_of_answered hcrc h, if_pos h]
  · rw [routeDirectHandleDelivered_of_not_answered hcrc h, if_neg h]
    dsimp only
    split_ifs <;> rfl

theorem lookup_takeIn_self (n : Node) (p : NodePacket) :
    (n.takeIn p).messages.lookup p.appPayload.id =
      some { n.messages.entry p.appPayload.id with wasMessage := true } := by
  rw [Node.takeIn, MessageTable.lookup_setWasMessageById MessageTable.register_ne_none, if_pos rfl,
    MessageTable.lookup_register_self]
  rfl

theorem lookup_takeIn_ne (n : Node) (p : NodePacket) (h : p.appPayload.id ≠ k) :
    (n.takeIn p).messages.lookup k =
      if n.messages.Wraps p.appPayload.id then none else n.messages.lookup k := by
  rw [Node.takeIn, MessageTable.lookup_setWasMessageById MessageTable.register_ne_none, if_neg h,
    MessageTable.lookup_register_ne h]

/-- The table after a packet that is taken: the packet's id is known as handled, and the other
ids are as they were, unless the table was started again. -/
theorem lookup_handleNodeRouteDirect (hv : p.Valid) (h : ¬ n.messages.Taken p.appPayload.id) :
    (handleNodeRouteDirect z env n p).2.messages.Taken p.appPayload.id ∧
      ∀ k, p.appPayload.id ≠ k →
        (handleNodeRouteDirect z env n p).2.messages.lookup k =
          if n.messages.Wraps p.appPayload.id then none else n.messages.lookup k := by
  rw [handleNodeRouteDirect_of_not_taken hv h]
  have hself := lookup_takeIn_self n p
  have htakeIn : (n.takeIn p).messages.Taken p.appPayload.id ∧ ∀ k, p.appPayload.id ≠ k →
      (n.takeIn p).messages.lookup k =
        if n.messages.Wraps p.appPayload.id then none else n.messages.lookup k :=
    ⟨by rw [MessageTable.Taken, hself]; rfl, fun k hk => lookup_takeIn_ne n p hk⟩
  have hknown : (n.takeIn p).messages.lookup p.appPayload.id ≠ none := htakeIn.1.ne_none
  split
  · rw [messages_routeDirectHandleDelivered hv.2, MessageTable.register_of_lookup hknown]
    split
    · exact htakeIn
    · refine ⟨?_, fun k hk => ?_⟩
      · rw [MessageTable.Taken, MessageTable.lookup_setInverseById hknown, if_pos rfl, hself]
        rfl
      · rw [MessageTable.lookup_setInverseById hknown, if_neg hk]
        exact htakeIn.2 k hk
  · exact htakeIn

/-- A unicast answer registers its id in the same table. -/
theorem lookup_handleUnicastFirst {c : UnicastContest} (h : c.appPayload.id ≠ k) :
    (handleUnicastFirst env n c).messages.lookup k =
      if n.messages.Wraps c.appPayload.id then none else n.messages.lookup k := by
  have hfst : (n.messages.getUnicastStatusById c.appPayload.id).1 =
      (n.messages.lookup c.appPayload.id).map (·.unicastFirst) := MessageTable.getFlag_fst _
  have hsnd : (n.messages.getUnicastStatusById c.appPayload.id).2 =
      n.messages.register c.appPayload.id := MessageTable.getFlag_snd _
  unfold handleUnicastFirst
  simp only [hfst, hsnd]
  split
  · exact MessageTable.lookup_register_ne h
  · rw [MessageTable.lookup_setUnicastStatusById MessageTable.register_ne_none, if_neg h,
      MessageTable.lookup_register_ne h]
  · rw [MessageTable.lookup_setUnicastStatusById MessageTable.register_ne_none, if_neg h,
      MessageTable.lookup_register_ne h]

end MeshNet
