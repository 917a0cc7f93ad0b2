import MeshNet.Node.Run

/-!
# Messages that have not been seen before

The receiver of a flooded message answers the first copy: it sends an inverse packet back,
gives the message to its app and notifies the server. The table decides which copy is the
first. After it has started again, the slots behind its first one still have the flags of the
ids they held before; a new id put there can look answered.
-/

namespace MeshNet
open Library

/-- The node answers the packet: one inverse packet on the way back to the sender, one call of
the app and one notification, in this order and nothing besides. -/
def Answers (z : Zlib) (env : Env) (n : Node) (p : NodePacket) : Prop :=
  let n' := (handleNodeRouteDirect z env n p).2
  ∃ accepted left type, n'.routing.nextAddr p.senderAddr ≠ noAddr ∧
    n'.link.trace = n.link.trace ++
      [.send (nodePort (n'.routing.nextAddr p.senderAddr))
        ((createPacket .routeInverse .node (p.inverse n.addr)).sent env.stack) true,
      .app p.appPayload accepted left,
      .send serverPort ((createNotify .node ⟨type, p.appPayload.id⟩).sent env.stack) true]

/-- The id of the packet starts with no flag raised when it is looked up for the first time. -/
def StartsClean (n : Node) (p : NodePacket) : Prop :=
  (n.messages.getWasMessageById p.appPayload.id).2.lookup p.appPayload.id =
    some (.clean p.appPayload.id)

/-- What was attempted to send was sent. -/
def Event.Succeeded : Event → Prop
  | .send _ _ ok => ok = true
  | _ => True

instance (e : Event) : Decidable e.Succeeded := by
  cases e <;> unfold Event.Succeeded <;> infer_instance

/-- Everything the node sends when it handles the packet is sent. -/
def AllSent (z : Zlib) (env : Env) (n : Node) (p : NodePacket) : Prop :=
  ∀ e ∈ (handleNodeRouteDirect z env n p).2.link.trace.drop n.link.trace.length, e.Succeeded

instance (z : Zlib) (env : Env) (n : Node) (p : NodePacket) : Decidable (AllSent z env n p) := by
  unfold AllSent; infer_instance

/-- The table is full, so that it starts again with a slot that is cleared, or its next slot
has no flag raised. -/
def MessageTable.NextClean (t : MessageTable) : Prop :=
  t.messageNum = maxMessageData ∨
    (t.nextSlot.stopInverse = false ∧ t.nextSlot.wasMessage = false ∧
      t.nextSlot.unicastFirst = false)

/-- The packet replaces the route to its sender. -/
def RoutingTable.Replaces (t : RoutingTable) (p : NodePacket) : Prop :=
  0 < newMetric p.timeToLive ∧ (t.nextAddr p.senderAddr = noAddr ∨
    newMetric p.timeToLive < (t.get p.senderAddr).metric)

instance (t : RoutingTable) (p : NodePacket) : Decidable (t.Replaces p) := by
  unfold RoutingTable.Replaces; infer_instance

/-- The sender is in the mesh and there is a route to it: the packet's own way, where the packet
replaces the route, or else the one that is there. -/
def RoutingTable.WayBack (t : RoutingTable) (p : NodePacket) : Prop :=
  InMesh p.senderAddr ∧
    if t.Replaces p then p.localSenderAddr ≠ noAddr else t.nextAddr p.senderAddr ≠ noAddr

variable {z : Zlib} {env : Env} {n : Node} {p : NodePacket}

theorem nextAddr_takeIn_ne_iff :
    (n.takeIn p).routing.nextAddr p.senderAddr ≠ noAddr ↔ n.routing.WayBack p := by
  have htakeIn : (n.takeIn p).routing =
      if n.routing.Replaces p then
        n.routing.setAddr p.senderAddr p.localSenderAddr (RoutingTable.newMetric p.timeToLive)
      else n.routing := by
    simp only [Node.takeIn, RoutingTable.learnDirect, RoutingTable.Replaces]
    split_ifs <;> grind
  rw [htakeIn, RoutingTable.WayBack]
  by_cases hin : InMesh p.senderAddr
  · simp only [hin, true_and]
    split
    · rw [RoutingTable.nextAddr_eq, RoutingTable.get_setAddr, if_pos ⟨rfl, hin⟩]
    · rfl
  · simp only [hin, false_and, iff_false, not_not]
    by_contra h
    exact hin (RoutingTable.lt_nodeCount_of_nextAddr h)

/-- A fresh id whose slot says that it was answered is registered, and that is all. -/
theorem handleNodeRouteDirect_of_stopInverse (hv : p.Valid) (haddr : p.receiverAddr = n.addr)
    (hfresh : n.messages.lookup p.appPayload.id = none)
    (hstop : (n.messages.entry p.appPayload.id).stopInverse = true) :
    (handleNodeRouteDirect z env n p).2 = n.takeIn p := by
  have hans : (n.takeIn p).messages.Answered p.appPayload.id := by
    simp [MessageTable.Answered, lookup_takeIn_self, hstop]
  rw [handleNodeRouteDirect_of_not_taken hv (not_taken_of_lookup hfresh), if_pos haddr,
    routeDirectHandleDelivered_of_answered hv.2 hans]

/-- For a fresh id, what decides is the flag the slot has kept and the way back. -/
theorem answers_iff (hv : p.Valid) (haddr : p.receiverAddr = n.addr)
    (hfresh : n.messages.lookup p.appPayload.id = none) (hsent : AllSent z env n p) :
    Answers z env n p ↔
      (n.messages.entry p.appPayload.id).stopInverse = false ∧ n.routing.WayBack p := by
  rw [← nextAddr_takeIn_ne_iff]
  unfold Answers AllSent at *
  cases hstop : (n.messages.entry p.appPayload.id).stopInverse with
  | true =>
    rw [handleNodeRouteDirect_of_stopInverse hv haddr hfresh hstop]
    simp [Node.takeIn]
  | false =>
    have hans : ¬ (n.takeIn p).messages.Answered p.appPayload.id := by
      simp [MessageTable.Answered, lookup_takeIn_self, hstop]
    rw [handleNodeRouteDirect_of_not_taken hv (not_taken_of_lookup hfresh), if_pos haddr,
      routeDirectHandleDelivered_of_not_answered hv.2 hans] at hsent ⊢
    by_cases hnext : (n.takeIn p).routing.nextAddr p.senderAddr = noAddr
    · simp [hnext, Node.answer]
    · dsimp only at hsent ⊢
      rw [if_neg hnext] at hsent ⊢
      simp only [true_and, ne_eq, hnext, not_false_eq_true, iff_true]
      change ∀ e ∈ List.drop (n.link.trace).length (ite _ _ _ : Node).link.trace, _ at hsent
      generalize hback : sendPacket env (n.takeIn p).link
        ((n.takeIn p).routing.nextAddr p.senderAddr) .routeInverse (p.inverse (n.takeIn p).addr) =
          sent at hsent ⊢
      have hinverse : sent.2.trace = n.link.trace ++
          [.send (nodePort ((n.takeIn p).routing.nextAddr p.senderAddr))
            ((createPacket .routeInverse .node (p.inverse n.addr)).sent env.stack) sent.1] :=
        hback ▸ Link.getConnAndSend_trace
      cases hok : sent.1 with
      | false =>
        -- the failed attempt is in the trace
        simp only [hok, Bool.not_false, if_true, hinverse, List.drop_left] at hsent
        simpa [Event.Succeeded] using hsent _ (List.mem_singleton_self _)
      | true =>
        obtain ⟨left, htrace⟩ :=
          trace_handToAppAndNotify z env (n.takeIn p) sent.2 p.appPayload
        rw [hinverse, hok, List.append_assoc] at htrace
        simp only [hok, Bool.not_true, Bool.false_eq_true, if_false] at hsent ⊢
        rw [htrace, List.drop_left] at hsent
        have htold : (handToAppAndNotify z env (n.takeIn p) sent.2 p.appPayload).2.1 = true := by
          simpa [Event.Succeeded] using hsent _ (by simp; exact .inr (.inr rfl))
        rw [htold] at htrace
        exact ⟨_, left, _, hnext, htrace⟩

theorem startsClean_iff (hfresh : n.messages.lookup p.appPayload.id = none) :
    StartsClean n p ↔ n.messages.NextClean := by
  have hentry : (n.messages.getWasMessageById p.appPayload.id).2.lookup p.appPayload.id =
      some (n.messages.entry p.appPayload.id) := by
    rw [MessageTable.getWasMessageById, MessageTable.getFlag_snd,
      MessageTable.lookup_register_self]
  rw [StartsClean, hentry, MessageTable.entry, hfresh, MessageTable.NextClean]
  by_cases hfull : n.messages.messageNum = maxMessageData
  · simp [hfull]
  · simp [hfull, MessageData.clean]

theorem MessageTable.NextClean.stopInverse {t : MessageTable} {id : UInt16} (h : t.NextClean)
    (hfresh : t.lookup id = none) : (t.entry id).stopInverse = false := by
  rw [MessageTable.entry, hfresh]
  rcases h with hfull | hclean
  · simp [hfull, MessageData.clean]
  · dsimp only
    split
    · rfl
    · exact hclean.1

/-- A node that was never reset answers a message it was not sent before, and registers it
afresh, exactly when the next slot is clean and there is a way back. -/
theorem answers_fresh_iff {addr : UInt8} {is : List (Env × List UInt8)}
    (hreset : ∀ i ∈ is, ¬ IsReset i) (hfresh : ∀ i ∈ is, messageId i ≠ some p.appPayload.id)
    (hv : p.Valid) (haddr : p.receiverAddr = addr)
    (hsent : AllSent z env (run (nodeStep z) (.start addr) is) p) :
    (Answers z env (run (nodeStep z) (.start addr) is) p ∧
        StartsClean (run (nodeStep z) (.start addr) is) p) ↔
      (run (nodeStep z) (.start addr) is).messages.NextClean ∧
        (run (nodeStep z) (.start addr) is).routing.WayBack p := by
  have hnew := lookup_run_start (z := z) addr hreset hfresh
  have haddr' := haddr.trans (run_sameHost (z := z) addr is).1.symm
  rw [answers_iff hv haddr' hnew hsent, startsClean_iff hnew]
  exact ⟨fun h => ⟨h.2, h.1.2⟩, fun h => ⟨⟨h.1.stopInverse hnew, h.2⟩, h.1⟩⟩

/-! ## A slot that is not clean -/

/-- What the delivery of a valid packet makes of the table. -/
def deliverMessage (t : MessageTable) (id : UInt16) : MessageTable :=
  let registered := registerMessage t id
  if !registered.1 then registered.2
  else if registered.2.Answered id then registered.2
  else (registered.2.register id).setInverseById id true

theorem messages_delivered (hv : p.Valid) (haddr : p.receiverAddr = n.addr) :
    (handleNodeRouteDirect z env n p).2.messages = deliverMessage n.messages p.appPayload.id := by
  rw [deliverMessage, registerMessage_eq]
  by_cases ht : n.messages.Taken p.appPayload.id
  · simp [handleNodeRouteDirect_of_taken ht, ht]
  · rw [handleNodeRouteDirect_of_not_taken hv ht, if_pos haddr,
      messages_routeDirectHandleDelivered hv.2, if_neg ht]
    rfl

/-- As long as there is room, a delivered message is put into the next slot and is marked as
answered there. -/
theorem live_deliverMessage {t : MessageTable} {id : UInt16} (hnew : t.lookup id = none)
    (hroom : t.messageNum ≠ maxMessageData) :
    (deliverMessage t id).messageNum = t.messageNum + 1 ∧
      ∃ m, (deliverMessage t id).live = t.live ++ [m] ∧ m.id = id ∧ m.stopInverse = true := by
  have hother := MessageTable.lookup_eq_none_iff.mp hnew
  have hregister : t.register id = t.setNewId id := by simp [MessageTable.register, hnew]
  have hknown : (t.setNewId id).lookup id ≠ none := hregister ▸ MessageTable.register_ne_none
  have heq : registerMessage t id = (true, (t.setNewId id).setWasMessageById id true) := by
    rw [registerMessage_eq, if_neg (not_taken_of_lookup hnew), hregister]
  obtain ⟨m, hlive, hmid⟩ : ∃ m,
      ((t.setNewId id).setWasMessageById id true).live = t.live ++ [m] ∧ m.id = id :=
    ⟨_, MessageTable.live_setFlag_append (MessageTable.live_setNewId hroom) rfl hother, rfl⟩
  have hnum : ((t.setNewId id).setWasMessageById id true).messageNum = t.messageNum + 1 := by
    rw [MessageTable.setWasMessageById, MessageTable.messageNum_setFlag hknown,
      MessageTable.messageNum_setNewId, if_neg hroom]
  have hknown' : ((t.setNewId id).setWasMessageById id true).lookup id ≠ none := by
    rw [MessageTable.lookup_setWasMessageById hknown, if_pos rfl]
    simpa using hknown
  simp only [deliverMessage, heq, Bool.not_true, Bool.false_eq_true, if_false]
  split
  · rename_i hans
    refine ⟨hnum, m, hlive, hmid, ?_⟩
    have hfind : ((t.setNewId id).setWasMessageById id true).lookup id = some m := by
      rw [MessageTable.lookup, hlive, List.find?_append,
        show t.live.find? (fun m => m.id == id) = none from hnew]
      simp [hmid]
    simpa [MessageTable.Answered, hfind] using hans
  · rw [MessageTable.register_of_lookup hknown', MessageTable.setInverseById,
      MessageTable.messageNum_setFlag hknown']
    exact ⟨hnum, _, MessageTable.live_setFlag_append hlive hmid hother, hmid, rfl⟩

/-- After as many new messages as there is room for, every slot in use is marked as answered. -/
theorem live_run_deliverMessage {t : MessageTable} {ids : List UInt16} (hids : ids.Nodup)
    (hnew : ∀ id ∈ ids, t.lookup id = none)
    (hroom : t.messageNum + ids.length ≤ maxMessageData) :
    (run deliverMessage t ids).messageNum = t.messageNum + ids.length ∧
      ∃ ms, (run deliverMessage t ids).live = t.live ++ ms ∧ ms.map (·.id) = ids ∧
        ∀ m ∈ ms, m.stopInverse = true := by
  induction ids generalizing t with
  | nil => exact ⟨rfl, [], by simp⟩
  | cons id ids ih =>
    obtain ⟨hid, hids⟩ := List.nodup_cons.mp hids
    rw [List.length_cons] at hroom
    obtain ⟨hnum, m, hlive, hmid, hstop⟩ :=
      live_deliverMessage (hnew id List.mem_cons_self) (by omega)
    have hnew' : ∀ id' ∈ ids, (deliverMessage t id).lookup id' = none := by
      intro id' hid'
      rw [MessageTable.lookup_eq_none_iff, hlive]
      intro m' hm' heq
      rcases List.mem_append.mp hm' with hold | hlast
      · exact MessageTable.lookup_eq_none_iff.mp (hnew id' (List.mem_cons_of_mem _ hid')) m' hold
          heq
      · rw [List.mem_singleton.mp hlast, hmid] at heq
        exact hid (heq ▸ hid')
    obtain ⟨hnum', ms, hlive', hmap, hall⟩ := ih hids hnew' (by omega)
    refine ⟨by rw [run_cons, hnum', hnum, List.length_cons]; omega, m :: ms, ?_, ?_, ?_⟩
    · rw [run_cons, hlive', hlive, List.append_assoc]
      rfl
    · rw [List.map_cons, hmap, hmid]
    · simpa [hstop] using hall

/-- When a full table of answered messages starts again, its next slot is marked as answered. -/
theorem nextSlot_deliverMessage {t : MessageTable} {id : UInt16} (hnew : t.lookup id = none)
    (hfull : t.messageNum = maxMessageData) (hall : ∀ m ∈ t.live, m.stopInverse = true) :
    (deliverMessage t id).messageNum = 1 ∧
      (deliverMessage t id).nextSlot.stopInverse = true := by
  have hslot : (t.wrap (.clean id)).nextSlot.stopInverse = true := by
    have hlt : 1 < t.messages.length := by rw [t.length_messages]; decide
    have hmem : t.messages[1] ∈ t.live := by
      rw [MessageTable.live, hfull, ← t.length_messages, List.take_length]
      exact List.getElem_mem hlt
    have heq : (t.wrap (.clean id)).nextSlot = t.messages[1] := by
      simp [MessageTable.nextSlot, MessageTable.wrap, hlt, List.getD_eq_getElem?_getD]
    rw [heq]
    exact hall _ hmem
  have hregister : t.register id = t.wrap (.clean id) := by
    simp [MessageTable.register, hnew, MessageTable.setNewId_full hfull]
  have hknown : (t.wrap (.clean id)).lookup id ≠ none := hregister ▸ MessageTable.register_ne_none
  have heq : registerMessage t id = (true, (t.wrap (.clean id)).setWasMessageById id true) := by
    rw [registerMessage_eq, if_neg (not_taken_of_lookup hnew), hregister]
  have hknown' : ((t.wrap (.clean id)).setWasMessageById id true).lookup id ≠ none := by
    rw [MessageTable.lookup_setWasMessageById hknown, if_pos rfl]
    simpa using hknown
  have hwas : ((t.wrap (.clean id)).setWasMessageById id true).messageNum = 1 ∧
      ((t.wrap (.clean id)).setWasMessageById id true).nextSlot.stopInverse = true := by
    rw [MessageTable.setWasMessageById, MessageTable.messageNum_setFlag hknown,
      MessageTable.nextSlot_setFlag hknown]
    exact ⟨rfl, hslot⟩
  simp only [deliverMessage, heq, Bool.not_true, Bool.false_eq_true, if_false]
  split
  · exact hwas
  · rw [MessageTable.register_of_lookup hknown', MessageTable.setInverseById,
      MessageTable.messageNum_setFlag hknown', MessageTable.nextSlot_setFlag hknown']
    exact hwas

/-- A message with an empty text from node 1 to an app of node 5. -/
def addressed (id : UInt16) : NodePacket :=
  NodePacket.renewed ⟨1, 5, 1, 19, ⟨.known .delivery, 0, 0, id, 0, .zero, 0⟩, 0⟩

def deliveries (ids : List UInt16) : List (Env × List UInt8) :=
  ids.map fun id =>
    (.zeroed .ideal, (createPacket .routeDirect .node (addressed id)).sent fun _ => 0)

theorem addressed_fits (id : UInt16) : (addressed id).appPayload.Fits := Nat.zero_le _

theorem addressed_valid (id : UInt16) : (addressed id).Valid :=
  ⟨show (0 : Int8) < 19 by decide, isValidCrc_renewed (addressed_fits id)⟩

theorem addressed_received_valid (id : UInt16) : ((addressed id).received .zero).Valid := by
  refine ⟨(addressed_valid id).1, ?_⟩
  rw [isValidCrc, (addressed_fits id).packetCrc_received]
  exact (addressed_valid id).2

theorem receive_deliveries {ids : List UInt16} : ∀ i ∈ deliveries ids, ∃ id ∈ ids,
    receive i.1.heap i.1.stack i.2 = some ⟨.known .node,
      ⟨.known .routeDirect, some (.packet ((addressed id).received .zero)), false⟩⟩ := by
  intro i hi
  obtain ⟨id, hid, rfl⟩ := List.mem_map.mp hi
  exact ⟨id, hid, receive_packet rfl (addressed_fits id) fun _ => 0⟩

theorem deliveries_not_isReset (ids : List UInt16) : ∀ i ∈ deliveries ids, ¬ IsReset i := by
  rintro i hi ⟨incoming, hincoming, hsender, -⟩
  obtain ⟨id, -, hreceive⟩ := receive_deliveries i hi
  rw [hreceive] at hincoming
  cases hincoming
  cases hsender

theorem deliveries_messageId {ids : List UInt16} {k : UInt16} (hk : k ∉ ids) :
    ∀ i ∈ deliveries ids, messageId i ≠ some (addressed k).appPayload.id := by
  intro i hi hid
  obtain ⟨id, hmem, hreceive⟩ := receive_deliveries i hi
  rw [messageId, hreceive] at hid
  have hid' : id = k := Option.some.inj hid
  exact hk (hid' ▸ hmem)

theorem messages_run_deliveries {ids : List UInt16} (haddr : n.addr = 5) :
    (run (nodeStep z) n (deliveries ids)).messages = run deliverMessage n.messages ids := by
  induction ids generalizing n with
  | nil => rfl
  | cons id ids ih =>
    have hstep : nodeStep z n (.zeroed .ideal,
        (createPacket .routeDirect .node (addressed id)).sent fun _ => 0) =
        (handleNodeRouteDirect z (.zeroed .ideal) n ((addressed id).received .zero)).2 := by
      rw [nodeStep_packet rfl (addressed_fits id)]
      rfl
    have haddr' : (handleNodeRouteDirect z (.zeroed .ideal) n
        ((addressed id).received .zero)).2.addr = 5 :=
      (sameHost_handleNodeRouteDirect ((addressed id).received .zero)).1.trans haddr
    have hmessages : (handleNodeRouteDirect z (.zeroed .ideal) n
        ((addressed id).received .zero)).2.messages = deliverMessage n.messages id :=
      messages_delivered (addressed_received_valid id) haddr.symm
    rw [deliveries, List.map_cons, run_cons, run_cons, hstep, ← hmessages]
    exact ih haddr'

/-- A hundred and one answered messages later, the next message is not answered. -/
theorem answers_suppressed :
    ¬ ∀ (z : Zlib) (env : Env) (addr : UInt8) (is : List (Env × List UInt8)) (p : NodePacket),
      (∀ i ∈ is, ¬ IsReset i) → (∀ i ∈ is, messageId i ≠ some p.appPayload.id) → p.Valid →
      p.receiverAddr = addr → AllSent z env (run (nodeStep z) (.start addr) is) p →
        Answers z env (run (nodeStep z) (.start addr) is) p ∧
          StartsClean (run (nodeStep z) (.start addr) is) p := by
  intro hclaim
  obtain ⟨ids, hnodup, hlen, hfull, hlast⟩ : ∃ ids : List UInt16, ids.Nodup ∧
      ids.length = maxMessageData ∧ 100 ∉ ids ∧ 101 ∉ ids ++ [100] :=
    ⟨(List.range 100).map UInt16.ofNat, by decide +kernel⟩
  obtain ⟨hnum, ms, hlive, hmap, hall⟩ :=
    live_run_deliverMessage (t := .initial) hnodup (fun _ _ => rfl) (by simp [hlen])
  have hlive' : (run deliverMessage .initial ids).live = ms := hlive
  have hnew : (run deliverMessage .initial ids).lookup 100 = none := by
    rw [MessageTable.lookup_eq_none_iff, hlive']
    intro m hm hid
    exact hfull (hmap ▸ hid ▸ List.mem_map_of_mem hm)
  obtain ⟨hone, hslot⟩ :=
    nextSlot_deliverMessage hnew (by simpa [hlen] using hnum) (by rwa [hlive'])
  have hreset := deliveries_not_isReset (ids ++ [100])
  have hfresh := deliveries_messageId hlast
  have hmessages : (run (nodeStep .stored) (.start 5) (deliveries (ids ++ [100]))).messages =
      deliverMessage (run deliverMessage .initial ids) 100 := by
    rw [messages_run_deliveries rfl, run_append]
    rfl
  have hlookup := lookup_run_start (z := .stored) 5 hreset hfresh
  have haddr := (run_sameHost (z := .stored) 5 (deliveries (ids ++ [100]))).1
  have h := hclaim .stored (.zeroed .ideal) 5 _ (addressed 101) hreset hfresh
    (addressed_valid 101) rfl
  generalize run (nodeStep .stored) (.start 5) (deliveries (ids ++ [100])) = n at *
  have hstop : (n.messages.entry 101).stopInverse = true := by
    have hroom : n.messages.messageNum ≠ maxMessageData := by
      rw [hmessages, hone]
      decide
    rw [MessageTable.entry, show n.messages.lookup 101 = none from hlookup, hmessages]
    rw [hmessages] at hroom
    simpa [hroom] using hslot
  have hunanswered : (handleNodeRouteDirect .stored (.zeroed .ideal) n (addressed 101)).2 =
      n.takeIn (addressed 101) :=
    handleNodeRouteDirect_of_stopInverse (addressed_valid 101) haddr.symm hlookup hstop
  have hsent : AllSent .stored (.zeroed .ideal) n (addressed 101) := by
    rw [AllSent, hunanswered]
    simp [Node.takeIn]
  have hanswers := (h hsent).1
  rw [answers_iff (addressed_valid 101) haddr.symm hlookup hsent] at hanswers
  exact absurd hanswers.1 (by rw [show (addressed 101).appPayload.id = 101 from rfl, hstop]; decide)

theorem answers_fresh_iff_addressed :
    (Answers .stored (.zeroed .ideal) (run (nodeStep .stored) (.start 5) (deliveries [7]))
          (addressed 8) ∧
        StartsClean (run (nodeStep .stored) (.start 5) (deliveries [7])) (addressed 8)) ↔
      (run (nodeStep .stored) (.start 5) (deliveries [7])).messages.NextClean ∧
        (run (nodeStep .stored) (.start 5) (deliveries [7])).routing.WayBack (addressed 8) :=
  answers_fresh_iff (deliveries_not_isReset _) (deliveries_messageId (by decide))
    (addressed_valid 8) rfl (by decide +kernel)

end MeshNet
