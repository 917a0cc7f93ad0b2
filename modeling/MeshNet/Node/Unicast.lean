import MeshNet.Node.Copies
import MeshNet.Node.Run

/-!
# Who wins a unicast

The origin of a unicast message sends it to the first neighbour that answers its contest. That a
neighbour has won is known to the table of ids alone: once the table has started again at its first
slot, the next answer wins as well.
-/

namespace MeshNet
open Library

/-- What arrives is an answer to the contest for the message `k`: the node that it names. -/
def reply? (k : UInt16) (i : Env × List UInt8) : Option UInt8 :=
  match receive i.1.heap i.1.stack i.2 with
  | some ⟨.known .node, ⟨.known .unicastFirst, some (.contest c), _⟩⟩ =>
    if c.appPayload.id = k then some c.nodeAddr else none
  | _ => none

/-- What arrives works on the table of ids. -/
def arrival? (i : Env × List UInt8) : Option Arrival :=
  match receive i.1.heap i.1.stack i.2 with
  | some ⟨.known .node, ⟨.known .routeDirect, some (.packet p), _⟩⟩ => some (.direct p)
  | some ⟨.known .node, ⟨.known .unicastFirst, some (.contest c), _⟩⟩ => some (.first c)
  | _ => none

/-- The server has the node find a winner. -/
def IsUnicast (i : Env × List UInt8) : Prop :=
  ∃ p died, receive i.1.heap i.1.stack i.2 =
    some ⟨.known .server, ⟨.known .unicast, some (.packet p), died⟩⟩

/-- The message of what arrives fits its array. -/
def Fitting (i : Env × List UInt8) : Prop :=
  ∀ incoming ∈ receive i.1.heap i.1.stack i.2, ∀ payload ∈ incoming.parsed.payload, payload.Fits

/-- The port to which the message `k` is sent. -/
def Event.sendsTo (k : UInt16) : Event → Option UInt16
  | .send port bytes _ =>
    match receive .zero (fun _ => 0) bytes with
    | some ⟨.known .node, ⟨.known .send, some (.packet p), _⟩⟩ =>
      if p.appPayload.id = k then some port else none
    | _ => none
  | _ => none

/-- The ports to which the message `k` was sent, in order. -/
def Link.winners (k : UInt16) (l : Link) : List UInt16 := l.trace.filterMap (Event.sendsTo k)

/-- The table of the node starts again. -/
def WrapsAt (n : Node) (i : Env × List UInt8) : Prop := ∃ a ∈ arrival? i, a.Wraps n

instance (n : Node) (i : Env × List UInt8) : Decidable (WrapsAt n i) := by
  unfold WrapsAt
  infer_instance

def Memory.afterReply (k : UInt16) (n : Node) (i : Env × List UInt8) : Memory → Memory
  | unseen => if (reply? k i).isSome then known else unseen
  | known => if WrapsAt n i then forgotten else known
  | forgotten => forgotten

/-- The node and what it has made of the answers for the message `k`. -/
def watchReplies (z : Zlib) (k : UInt16) (s : Node × Memory) (i : Env × List UInt8) :
    Node × Memory :=
  (nodeStep z s.1 i, s.2.afterReply k s.1 i)

/-- No answer comes after it was forgotten that there is a winner. -/
def WinnerRemembered (z : Zlib) (k : UInt16) (n : Node) (is : List (Env × List UInt8)) : Prop :=
  Steps (watchReplies z k) (fun s i => s.2 = .forgotten → reply? k i = none) (n, .unseen) is

/-- The first answer for the message `k`. -/
def firstReply (k : UInt16) (is : List (Env × List UInt8)) : Option UInt8 := is.findSome? (reply? k)

/-- Of the message `k` the node gets the request of the server and the answers of neighbours. -/
structure OfUnicast (k : UInt16) (i : Env × List UInt8) : Prop where
  noReset : ¬ IsReset i
  fitting : Fitting i
  own : messageId i = some k → IsUnicast i ∨ reply? k i ≠ none

variable {z : Zlib} {k : UInt16} {n : Node} {i : Env × List UInt8} {l l' : Link}

/-! ## What is sent -/

theorem winners_of_trace {es : List Event} (htrace : l'.trace = l.trace ++ es) :
    l'.winners k = l.winners k ++ es.filterMap (Event.sendsTo k) := by
  rw [Link.winners, htrace, List.filterMap_append, Link.winners]

theorem sendsTo_notify (port : UInt16) (notify : Notify) (buf : Nat → UInt8) (ok : Bool) :
    Event.sendsTo k (.send port ((createNotify .node notify).sent buf) ok) = none := by
  rw [Event.sendsTo, receive_notify]

theorem sendsTo_contest (port : UInt16) {req : Request} (hreq : req.layout = some .contest)
    {c : UnicastContest} (hc : c.appPayload.Fits) (buf : Nat → UInt8) (ok : Bool) :
    Event.sendsTo k (.send port ((createContest req .node c).sent buf) ok) = none := by
  rw [Event.sendsTo, receive_contest hreq hc]
  cases req <;> rfl

theorem sendsTo_packet (port : UInt16) {req : Request} (hreq : req.layout = some .packet)
    {p : NodePacket} (hp : p.appPayload.Fits) (buf : Nat → UInt8) (ok : Bool) :
    Event.sendsTo k (.send port ((createPacket req .node p).sent buf) ok) =
      if req = .send ∧ p.appPayload.id = k then some port else none := by
  rw [Event.sendsTo, receive_packet hreq hp]
  have hid : (p.received .zero).appPayload.id = p.appPayload.id := rfl
  cases req <;> simp [hid]

/-- While another message is handled, nothing is sent for the message `k`. -/
theorem winners_emits {env : Env} {apps : List App} {a : AppPayload} (ha : a.Fits)
    (hk : a.id ≠ k) (h : Emits z env apps a l l') : l'.winners k = l.winners k := by
  obtain ⟨es, htrace, hes⟩ := h.trace
  have hnone : es.filterMap (Event.sendsTo k) = [] := by
    refine List.filterMap_eq_nil_iff.mpr fun e he => ?_
    cases e with
    | app => rfl
    | reply => rfl
    | send port bytes ok =>
      have hout : Outgoing env a port bytes := hes _ he
      cases hout with
      | notify notify => exact sendsTo_notify ..
      | packet addr hreq hp =>
        rw [sendsTo_packet _ hreq (hp ▸ ha), if_neg fun h => hk (hp ▸ h.2)]
      | contest addr hreq hc => exact sendsTo_contest _ hreq (hc ▸ ha) ..
  rw [winners_of_trace htrace, hnone, List.append_nil]

theorem winners_nodeStep_other (hi : OfUnicast k i) (hk : messageId i ≠ some k) :
    (nodeStep z n i).link.winners k = n.link.winners k := by
  unfold nodeStep nodeHandleRequest
  split
  · rename_i incoming hincoming
    have hreset : ¬ (incoming.sender = .known .server ∧ incoming.parsed.req = .known .reset) :=
      fun h => hi.noReset ⟨incoming, hincoming, h⟩
    cases hpayload : incoming.parsed.payload.bind Payload.appPayload? with
    | none =>
      have hother : k + 1 ≠ k := by grind
      refine winners_emits (a := ⟨.known .delivery, 0, 0, k + 1, 0, .zero, 0⟩) (Nat.zero_le _)
        hother (emits_nodeListenerHandle (fun p hp b hb => ?_) hreset)
      simp_all
    | some b =>
      obtain ⟨payload, hp, hb⟩ := Option.bind_eq_some_iff.mp hpayload
      have hfits : b.Fits := hi.fitting incoming hincoming payload hp b hb
      have hid : b.id ≠ k := fun h => hk (by simp [messageId, hincoming, hp, hb, h])
      have hcarried : (carriedPayload z i.1 incoming.sender b).Fits ∧
          (carriedPayload z i.1 incoming.sender b).id = b.id := by
        unfold carriedPayload
        split
        · exact ⟨fits_setupDelivery hfits, id_setupDelivery⟩
        · exact ⟨hfits, rfl⟩
      refine winners_emits hcarried.1 (hcarried.2 ▸ hid)
        (emits_nodeListenerHandle (fun p' hp' b' hb' => ?_) hreset)
      simp_all
  · rfl

/-- The origin announces the contest. -/
theorem winners_nodeStep_unicast (hi : OfUnicast k i) (hunicast : IsUnicast i) :
    (nodeStep z n i).link.winners k = n.link.winners k := by
  obtain ⟨p, died, hreceive⟩ := hunicast
  have hfits : p.appPayload.Fits := hi.fitting _ hreceive (.packet p) rfl _ rfl
  have hstep : (nodeStep z n i).link = (handleServerUnicast z i.1 n p).link := by
    simp only [nodeStep, nodeHandleRequest, hreceive]
    rfl
  have hall : ∀ ports : List UInt16, ∀ l : Link, (l.sendAll i.1.net ports
      ((createContest .unicastContest .node ⟨.known .unicastContest, n.addr,
        nodeAppSetupDelivery z i.1.deflated p.appPayload⟩).sent i.1.stack)).winners k =
      l.winners k := by
    intro ports
    induction ports with
    | nil => exact fun _ => rfl
    | cons port ports ih =>
      intro l
      refine (ih _).trans ?_
      rw [winners_of_trace Link.getConnAndSend_trace, List.filterMap_cons,
        sendsTo_contest port rfl (fits_setupDelivery hfits), List.filterMap_nil, List.append_nil]
  rw [hstep]
  exact hall _ _

theorem reply?_eq_some {addr : UInt8} (h : reply? k i = some addr) :
    ∃ c died, receive i.1.heap i.1.stack i.2 =
        some ⟨.known .node, ⟨.known .unicastFirst, some (.contest c), died⟩⟩ ∧
      c.appPayload.id = k ∧ c.nodeAddr = addr := by
  unfold reply? at h
  split at h
  · rename_i c died hreceive
    split at h
    · exact ⟨c, died, hreceive, ‹_›, Option.some.inj h⟩
    · cases h
  · cases h

/-- An answer wins where the table does not know the message. -/
theorem winners_nodeStep_reply (hi : OfUnicast k i) {addr : UInt8} (h : reply? k i = some addr) :
    (nodeStep z n i).link.winners k = n.link.winners k ++
      if n.messages.lookup k = none then [nodePort addr] else [] := by
  obtain ⟨c, died, hreceive, rfl, rfl⟩ := reply?_eq_some h
  have hfits : c.appPayload.Fits := hi.fitting _ hreceive (.contest c) rfl _ rfl
  have hstep : nodeStep z n i = handleUnicastFirst i.1 n c := by
    simp only [nodeStep, nodeHandleRequest, hreceive]
    rfl
  have hfst : (n.messages.getUnicastStatusById c.appPayload.id).1 =
      (n.messages.lookup c.appPayload.id).map (·.unicastFirst) := MessageTable.getFlag_fst _
  rw [hstep]
  unfold handleUnicastFirst
  simp only [hfst]
  cases hlookup : n.messages.lookup c.appPayload.id with
  | some m => cases hflag : m.unicastFirst <;> simp [hflag]
  | none =>
    have hsent : ({ (⟨n.addr, c.nodeAddr, 0, 0, c.appPayload, 0⟩ : NodePacket) with
        crc := packetCrc ⟨n.addr, c.nodeAddr, 0, 0, c.appPayload, 0⟩ } :
          NodePacket).appPayload.Fits := hfits
    simp only [Option.map_none, if_true, sendPacket]
    rw [winners_of_trace Link.getConnAndSend_trace, List.filterMap_cons,
      sendsTo_packet _ rfl hsent, if_pos ⟨rfl, rfl⟩, List.filterMap_nil]

/-- What a step adds to the winners of a message. -/
theorem winners_nodeStep (hi : OfUnicast k i) :
    (nodeStep z n i).link.winners k = n.link.winners k ++
      if n.messages.lookup k = none then ((reply? k i).map nodePort).toList else [] := by
  cases hreply : reply? k i with
  | some addr => exact winners_nodeStep_reply hi hreply
  | none =>
    have hsame : (nodeStep z n i).link.winners k = n.link.winners k := by
      by_cases hk : messageId i = some k
      · exact winners_nodeStep_unicast hi ((hi.own hk).resolve_right fun h => h hreply)
      · exact winners_nodeStep_other hi hk
    simpa using hsame

/-! ## What the table knows -/

theorem messages_nodeStep (hreset : ¬ IsReset i) :
    (nodeStep z n i).messages =
      match arrival? i with
      | some a => (Arrival.handle z n (i.1, a)).messages
      | none => n.messages := by
  unfold nodeStep nodeHandleRequest arrival?
  cases hreceive : receive i.1.heap i.1.stack i.2 with
  | none => rfl
  | some incoming =>
    obtain ⟨sender, req, payload, died⟩ := incoming
    dsimp only
    unfold nodeListenerHandle
    split
    · change _ = n.messages
      unfold nodeHandleServer
      split
      · rfl
      · exact messages_handleServerSend _ _
      · rename_i hreq
        exact absurd ⟨_, hreceive, rfl, hreq⟩ hreset
      · rfl
      · rfl
      · rfl
    · unfold nodeHandleNode
      split
      · rename_i hreq hpayload
        dsimp only at hreq hpayload
        subst hreq hpayload
        exact messages_handleNodeSend _
      · rename_i hreq hpayload
        dsimp only at hreq hpayload
        subst hreq hpayload
        rfl
      · rename_i hreq hpayload
        dsimp only at hreq hpayload
        subst hreq hpayload
        exact messages_handleNodeRouteInverse _
      · rename_i hreq hpayload
        dsimp only at hreq hpayload
        subst hreq hpayload
        rfl
      · rename_i hreq hpayload
        dsimp only at hreq hpayload
        subst hreq hpayload
        rfl
      · rename_i hsend hdirect hinverse hcontest hfirst
        split
        · rename_i heq
          split at heq
          · rename_i p died' hincoming
            cases hincoming
            exact (hdirect p rfl rfl).elim
          · rename_i c died' hincoming
            cases hincoming
            exact (hfirst c rfl rfl).elim
          · cases heq
        · rfl
    · rename_i hserver hnode
      split
      · rename_i heq
        split at heq
        · rename_i p died' hincoming
          cases hincoming
          exact (hnode rfl).elim
        · rename_i c died' hincoming
          cases hincoming
          exact (hnode rfl).elim
        · cases heq
      · rfl

def Arrival.id : Arrival → UInt16
  | direct p => p.appPayload.id
  | first c => c.appPayload.id

theorem messageId_arrival {a : Arrival} (h : arrival? i = some a) :
    messageId i = some a.id := by
  unfold arrival? at h
  split at h
  · rename_i p died hreceive
    cases h
    simp [messageId, hreceive, Payload.appPayload?, Arrival.id]
  · rename_i c died hreceive
    cases h
    simp [messageId, hreceive, Payload.appPayload?, Arrival.id]
  · cases h

/-- What is no answer for the message leaves the table's memory of it alone, unless the table
starts again. -/
theorem lookup_nodeStep_other (hi : OfUnicast k i) (hreply : reply? k i = none) :
    (nodeStep z n i).messages.lookup k = if WrapsAt n i then none else n.messages.lookup k := by
  rw [messages_nodeStep hi.noReset]
  cases ha : arrival? i with
  | none => simp [WrapsAt, ha]
  | some a =>
    have hid := messageId_arrival ha
    have hk : messageId i ≠ some k := by
      intro hk
      obtain ⟨p, died, hreceive⟩ := (hi.own hk).resolve_right fun h => h hreply
      simp [arrival?, hreceive] at ha
    have hwraps : WrapsAt n i ↔ a.Wraps n := by simp [WrapsAt, ha]
    simp only [hwraps]
    refine lookup_handle_of_not_isCopy (fun hcopy => hk ?_) fun c hc hck => hk ?_
    · cases a with
      | direct p => exact hid.trans (congrArg some hcopy.2)
      | first c => exact hcopy.elim
    · subst hc
      exact hid.trans (congrArg some hck)

/-- After an answer the table knows the message, and did not start again if it knew it before. -/
theorem lookup_nodeStep_reply (hi : OfUnicast k i) (hreply : reply? k i ≠ none) :
    (nodeStep z n i).messages.lookup k ≠ none ∧
      (n.messages.lookup k ≠ none → ¬ WrapsAt n i) := by
  obtain ⟨addr, haddr⟩ := Option.ne_none_iff_exists'.mp hreply
  obtain ⟨c, died, hreceive, rfl, rfl⟩ := reply?_eq_some haddr
  have harrival : arrival? i = some (.first c) := by simp [arrival?, hreceive]
  constructor
  · rw [messages_nodeStep hi.noReset, harrival]
    change (handleUnicastFirst i.1 n c).messages.lookup c.appPayload.id ≠ none
    have hregister : (n.messages.getUnicastStatusById c.appPayload.id).2 =
        n.messages.register c.appPayload.id := MessageTable.getFlag_snd _
    have hset : ((n.messages.register c.appPayload.id).setUnicastStatusById c.appPayload.id
        true).lookup c.appPayload.id ≠ none := by
      rw [MessageTable.lookup_setUnicastStatusById MessageTable.register_ne_none, if_pos rfl,
        MessageTable.lookup_register_self]
      exact Option.some_ne_none _
    unfold handleUnicastFirst
    simp only [hregister]
    split
    · exact MessageTable.register_ne_none
    · exact hset
    · exact hset
  · rintro hknown ⟨a, ha, id, hid, hwraps⟩
    rw [harrival] at ha
    cases ha
    cases hid
    exact hknown hwraps.2

/-! ## Whole runs -/

variable {is : List (Env × List UInt8)}

theorem winners_run_extends (his : ∀ i ∈ is, OfUnicast k i) :
    n.link.winners k <+: (run (nodeStep z) n is).link.winners k := by
  induction is generalizing n with
  | nil => exact List.prefix_rfl
  | cons i is ih =>
    have hstep := winners_nodeStep (z := z) (n := n) (his i List.mem_cons_self)
    exact (hstep ▸ List.prefix_append ..).trans (ih fun j hj => his j (List.mem_cons_of_mem _ hj))

/-- Without an answer a message that was forgotten stays so, and gets no winner. -/
theorem still_forgotten {i : Env × List UInt8} (hi : OfUnicast k i) (hreply : reply? k i = none)
    (h : n.messages.lookup k = none) :
    (nodeStep z n i).messages.lookup k = none ∧
      (nodeStep z n i).link.winners k = n.link.winners k := by
  constructor
  · rw [lookup_nodeStep_other hi hreply, h, ite_self]
  · rw [winners_nodeStep hi, if_pos h, hreply]
    exact List.append_nil _

/-- A message that was forgotten has no further winner exactly when no answer comes. -/
theorem winners_run_of_forgotten (his : ∀ i ∈ is, OfUnicast k i)
    (h : n.messages.lookup k = none) :
    (run (nodeStep z) n is).link.winners k = n.link.winners k ↔
      Steps (watchReplies z k) (fun s i => s.2 = .forgotten → reply? k i = none)
        (n, .forgotten) is := by
  induction is generalizing n with
  | nil => simp
  | cons i is ih =>
    have hi := his i List.mem_cons_self
    have hrest := fun j hj => his j (List.mem_cons_of_mem i hj)
    have hstep := winners_nodeStep (z := z) (n := n) hi
    rw [if_pos h] at hstep
    rw [run_cons, steps_cons]
    cases hreply : reply? k i with
    | none =>
      obtain ⟨hnone, hsame⟩ := still_forgotten (z := z) hi hreply h
      rw [← hsame, ih hrest hnone]
      exact ⟨fun hs => ⟨fun _ => rfl, hs⟩, And.right⟩
    | some addr =>
      rw [hreply] at hstep
      refine ⟨fun heq => ?_, fun hs => absurd (hs.1 rfl) (Option.some_ne_none _)⟩
      have hlength := (winners_run_extends (z := z) (n := nodeStep z n i) hrest).length_le
      rw [hstep, heq, List.length_append] at hlength
      exact absurd hlength (by simp)

/-- A message that has a winner gets no other one exactly when none comes after it was
forgotten. -/
theorem winners_run_of_known (his : ∀ i ∈ is, OfUnicast k i) (h : n.messages.lookup k ≠ none) :
    (run (nodeStep z) n is).link.winners k = n.link.winners k ↔
      Steps (watchReplies z k) (fun s i => s.2 = .forgotten → reply? k i = none)
        (n, .known) is := by
  induction is generalizing n with
  | nil => simp
  | cons i is ih =>
    have hi := his i List.mem_cons_self
    have hrest := fun j hj => his j (List.mem_cons_of_mem i hj)
    have hsame : (nodeStep z n i).link.winners k = n.link.winners k := by
      rw [winners_nodeStep hi, if_neg h, List.append_nil]
    rw [run_cons, steps_cons, ← hsame]
    simp only [reduceCtorEq, false_implies, true_and]
    by_cases hreply : reply? k i = none
    · have hlookup := lookup_nodeStep_other (z := z) (n := n) hi hreply
      by_cases hwraps : WrapsAt n i
      · rw [if_pos hwraps] at hlookup
        rw [winners_run_of_forgotten hrest hlookup, watchReplies, Memory.afterReply,
          if_pos hwraps]
      · rw [if_neg hwraps] at hlookup
        rw [ih hrest (hlookup ▸ h), watchReplies, Memory.afterReply, if_neg hwraps]
    · obtain ⟨hknown, hwraps⟩ := lookup_nodeStep_reply (z := z) (n := n) hi hreply
      rw [ih hrest hknown, watchReplies, Memory.afterReply, if_neg (hwraps h)]

theorem winners_run_iff (his : ∀ i ∈ is, OfUnicast k i) (h : n.messages.lookup k = none) :
    (run (nodeStep z) n is).link.winners k =
        n.link.winners k ++ ((firstReply k is).map nodePort).toList ↔
      WinnerRemembered z k n is := by
  induction is generalizing n with
  | nil => simp [firstReply, WinnerRemembered]
  | cons i is ih =>
    have hi := his i List.mem_cons_self
    have hrest := fun j hj => his j (List.mem_cons_of_mem i hj)
    have hstep := winners_nodeStep (z := z) (n := n) hi
    rw [if_pos h] at hstep
    rw [run_cons, WinnerRemembered, steps_cons]
    simp only [reduceCtorEq, false_implies, true_and]
    cases hreply : reply? k i with
    | none =>
      obtain ⟨hnone, hsame⟩ := still_forgotten (z := z) hi hreply h
      have hfirst : firstReply k (i :: is) = firstReply k is := by
        rw [firstReply, List.findSome?_cons, hreply]
        rfl
      rw [← hsame, hfirst, ih hrest hnone, WinnerRemembered, watchReplies, Memory.afterReply,
        hreply]
      rfl
    | some addr =>
      have hne : reply? k i ≠ none := by simp [hreply]
      have hknown := (lookup_nodeStep_reply (z := z) (n := n) hi hne).1
      have hfirst : firstReply k (i :: is) = some addr := by
        rw [firstReply, List.findSome?_cons, hreply]
      rw [hreply] at hstep
      rw [hfirst, ← hstep, winners_run_of_known hrest hknown, watchReplies, Memory.afterReply,
        hreply]
      rfl

/-- A unicast message is sent to the node that answered first and to no other, exactly when no
answer comes after the table has forgotten the message. -/
theorem winners_start_iff (z : Zlib) (k : UInt16) (addr : UInt8) (is : List (Env × List UInt8))
    (his : ∀ i ∈ is, OfUnicast k i) :
    (run (nodeStep z) (.start addr) is).link.winners k =
        ((firstReply k is).map nodePort).toList ↔
      WinnerRemembered z k (.start addr) is :=
  winners_run_iff his MessageTable.lookup_initial

/-! ### A second winner -/

/-- What the answer for `id` makes of the table. -/
def MessageTable.answered (t : MessageTable) (id : UInt16) : MessageTable :=
  let found := t.getUnicastStatusById id
  if found.1 = some true then found.2 else found.2.setUnicastStatusById id true

theorem messages_handleUnicastFirst {env : Env} {c : UnicastContest} :
    (handleUnicastFirst env n c).messages = n.messages.answered c.appPayload.id := by
  unfold handleUnicastFirst MessageTable.answered
  dsimp only
  split <;> simp_all

/-- What the answer for `id` makes of the table, and of the memory that there is a winner. -/
def watchTable (k : UInt16) (s : MessageTable × Memory) (id : UInt16) : MessageTable × Memory :=
  (s.1.answered id,
    match s.2 with
    | .unseen => if id = k then .known else .unseen
    | .known => if s.1.Wraps id then .forgotten else .known
    | .forgotten => .forgotten)

theorem watchReplies_first {c : UnicastContest} {died : Bool} {m : Memory}
    (hreceive : receive i.1.heap i.1.stack i.2 =
      some ⟨.known .node, ⟨.known .unicastFirst, some (.contest c), died⟩⟩) :
    (watchReplies z k (n, m) i).1.messages =
        (watchTable k (n.messages, m) c.appPayload.id).1 ∧
      (watchReplies z k (n, m) i).2 = (watchTable k (n.messages, m) c.appPayload.id).2 := by
  have hstep : nodeStep z n i = handleUnicastFirst i.1 n c := by
    simp only [nodeStep, nodeHandleRequest, hreceive]
    rfl
  have hwraps : WrapsAt n i ↔ n.messages.Wraps c.appPayload.id := by
    simp [WrapsAt, arrival?, hreceive, Arrival.Wraps, Arrival.lookedUp]
  refine ⟨(congrArg Node.messages hstep).trans messages_handleUnicastFirst, ?_⟩
  cases m with
  | unseen => by_cases hk : c.appPayload.id = k <;>
      simp [watchReplies, watchTable, Memory.afterReply, reply?, hreceive, hk]
  | known => simp only [watchReplies, watchTable, Memory.afterReply, hwraps]
  | forgotten => rfl

/-- The answer of node `addr` to the contest for the message `id`, which has no text. -/
def answer (id : UInt16) (addr : UInt8) : UnicastContest :=
  ⟨.known .unicastContest, addr, ⟨.known .unicast, 0, 0, id, 0, .zero, 0⟩⟩

def answerOf (env : Env) (a : UInt16 × UInt8) : Env × List UInt8 :=
  (env, (createContest .unicastFirst .node (answer a.1 a.2)).sent fun _ => 0)

theorem fits_answer (id : UInt16) (addr : UInt8) : (answer id addr).appPayload.Fits :=
  Nat.zero_le 150

theorem receive_answer (id : UInt16) (addr : UInt8) (heap : Message) (stack : Nat → UInt8) :
    receive heap stack ((createContest .unicastFirst .node (answer id addr)).sent fun _ => 0) =
      some ⟨.known .node, ⟨.known .unicastFirst,
        some (.contest ((answer id addr).received heap)), false⟩⟩ :=
  receive_contest (show Request.unicastFirst.layout = some .contest from rfl)
    (fits_answer id addr) _

theorem receive_answerOf (env : Env) (a : UInt16 × UInt8) : ∃ c : UnicastContest,
    receive (answerOf env a).1.heap (answerOf env a).1.stack (answerOf env a).2 =
      some ⟨.known .node, ⟨.known .unicastFirst, some (.contest c), false⟩⟩ ∧
    c.appPayload.id = a.1 ∧ c.appPayload.Fits :=
  ⟨(answer a.1 a.2).received env.heap, receive_answer .., rfl, fits_answer a.1 a.2⟩

/-- What arrives as an answer is for the origin. -/
theorem ofUnicast_of_receive {c : UnicastContest} {died : Bool}
    (hreceive : receive i.1.heap i.1.stack i.2 =
      some ⟨.known .node, ⟨.known .unicastFirst, some (.contest c), died⟩⟩)
    (hfits : c.appPayload.Fits) : OfUnicast k i := by
  refine ⟨?_, ?_, fun hk => .inr ?_⟩
  · rintro ⟨incoming, hincoming, hserver, -⟩
    cases hreceive.symm.trans hincoming
    cases hserver
  · intro incoming hincoming payload hp a ha
    cases hreceive.symm.trans hincoming
    cases hp
    cases ha
    exact hfits
  · have hid : c.appPayload.id = k := by
      simpa [messageId, hreceive, Payload.appPayload?] using hk
    simp [reply?, hreceive, hid]

theorem ofUnicast_answerOf (env : Env) (a : UInt16 × UInt8) : OfUnicast k (answerOf env a) :=
  have ⟨_, hreceive, _, hfits⟩ := receive_answerOf env a
  ofUnicast_of_receive hreceive hfits

/-- In a run of answers all depends on the table. -/
theorem steps_answers {env : Env} {as : List (UInt16 × UInt8)} {m : Memory} :
    Steps (watchReplies z k) (fun s i => s.2 = .forgotten → reply? k i = none) (n, m)
        (as.map (answerOf env)) ↔
      Steps (watchTable k) (fun s id => s.2 = .forgotten → id ≠ k) (n.messages, m)
        (as.map Prod.fst) := by
  induction as generalizing n m with
  | nil => simp
  | cons a as ih =>
    obtain ⟨c, hreceive, hid, -⟩ := receive_answerOf env a
    obtain ⟨hmessages, hmemory⟩ := watchReplies_first (z := z) (k := k) (n := n) (m := m) hreceive
    have hreply : reply? k (answerOf env a) = none ↔ a.1 ≠ k := by
      simp [reply?, hreceive, hid]
    rw [hid] at hmessages hmemory
    simp only [List.map_cons, steps_cons, hreply]
    have hwatch : watchTable k (n.messages, m) a.1 =
        ((watchReplies z k (n, m) (answerOf env a)).1.messages,
          (watchReplies z k (n, m) (answerOf env a)).2) :=
      Prod.ext hmessages.symm hmemory.symm
    rw [hwatch, ← ih]

theorem ofUnicast_answers (env : Env) (as : List (UInt16 × UInt8)) :
    ∀ i ∈ as.map (answerOf env), OfUnicast k i := by
  intro i hi
  obtain ⟨a, -, rfl⟩ := List.mem_map.mp hi
  exact ofUnicast_answerOf ..

theorem answered_of_room {t : MessageTable} {id : UInt16} (hnew : t.lookup id = none)
    (hroom : t.messageNum ≠ maxMessageData) :
    (t.answered id).messageNum = t.messageNum + 1 ∧
      ∀ k, id ≠ k → (t.answered id).lookup k = t.lookup k := by
  have hanswered : t.answered id = (t.setNewId id).setUnicastStatusById id true := by
    simp [MessageTable.answered, MessageTable.getUnicastStatusById, MessageTable.getFlag, hnew]
  have hknown : (t.setNewId id).lookup id ≠ none := by
    rw [MessageTable.lookup_setNewId hnew]
    split <;> simp
  rw [hanswered]
  refine ⟨?_, fun k hk => ?_⟩
  · rw [MessageTable.setUnicastStatusById, MessageTable.messageNum_setFlag hknown,
      MessageTable.messageNum_setNewId, if_neg hroom]
  · rw [MessageTable.lookup_setUnicastStatusById hknown, if_neg hk,
      MessageTable.lookup_setNewId hnew, if_neg hroom, if_neg hk]

/-- As long as there is room, it stays known that there is a winner. -/
theorem run_watchTable_of_room {t : MessageTable} {ids : List UInt16} (hids : ids.Nodup)
    (hnew : ∀ id ∈ ids, t.lookup id = none)
    (hroom : t.messageNum + ids.length ≤ maxMessageData) :
    run (watchTable k) (t, .known) ids = (run MessageTable.answered t ids, .known) := by
  induction ids generalizing t with
  | nil => rfl
  | cons id ids ih =>
    obtain ⟨hid, hids⟩ := List.nodup_cons.mp hids
    rw [List.length_cons] at hroom
    have hfree : t.messageNum ≠ maxMessageData := by omega
    obtain ⟨hnum, hother⟩ := answered_of_room (hnew id List.mem_cons_self) hfree
    have hnew' : ∀ id' ∈ ids, (t.answered id).lookup id' = none := fun id' hid' =>
      (hother id' fun h => hid (h ▸ hid')).trans (hnew id' (List.mem_cons_of_mem _ hid'))
    have hwatch : watchTable k (t, .known) id = (t.answered id, .known) := by
      simp [watchTable, MessageTable.Wraps, hfree]
    rw [run_cons, run_cons, hwatch, ih hids hnew' (by omega)]

/-- The answers for a hundred other messages make the table forget that there is a winner. -/
theorem not_steps_forgotten {k id : UInt16} {others : List UInt16}
    (hnodup : (k :: others).Nodup) (hlen : others.length + 1 = maxMessageData)
    (hid : id ∉ k :: others) :
    ¬ Steps (watchTable k) (fun s id => s.2 = .forgotten → id ≠ k) (.initial, .unseen)
      ((k :: others) ++ [id, k]) := by
  have hempty : MessageTable.initial.lookup k = none := rfl
  have hfirst := answered_of_room hempty (by decide)
  obtain ⟨hk, hothers⟩ := List.nodup_cons.mp hnodup
  have hnew : ∀ id' ∈ others, (MessageTable.initial.answered k).lookup id' = none :=
    fun id' hid' => hfirst.2 id' fun h => hk (h ▸ hid')
  have hroom : (MessageTable.initial.answered k).messageNum + others.length ≤ maxMessageData := by
    rw [hfirst.1, MessageTable.messageNum_initial]
    omega
  obtain ⟨hfull, hother⟩ :=
    MessageTable.run_of_room (fun _ _ => answered_of_room) hothers hnew hroom
  obtain ⟨hne, hid⟩ := not_or.mp (List.mem_cons.not.mp hid)
  have hwraps : (run MessageTable.answered (MessageTable.initial.answered k) others).Wraps id :=
    ⟨by rw [hfull, hfirst.1, MessageTable.messageNum_initial]; omega,
      (hother id hid).trans (hfirst.2 id (Ne.symm hne))⟩
  have hseen : watchTable k (.initial, .unseen) k = (MessageTable.initial.answered k, .known) := by
    simp [watchTable]
  intro hsteps
  rw [List.cons_append, steps_cons, hseen, steps_append,
    run_watchTable_of_room hothers hnew hroom, steps_cons, steps_cons] at hsteps
  exact hsteps.2.2.2.1 (by simp [watchTable, hwraps]) rfl

theorem winners_start_two :
    ¬ ∀ (z : Zlib) (k : UInt16) (addr : UInt8) (is : List (Env × List UInt8)),
      (∀ i ∈ is, OfUnicast k i) → (run (nodeStep z) (.start addr) is).link.winners k =
        ((firstReply k is).map nodePort).toList := by
  intro hclaim
  obtain ⟨others, hnodup, hlen, hid⟩ : ∃ others : List UInt16,
      (0 :: others).Nodup ∧ others.length + 1 = maxMessageData ∧ 100 ∉ 0 :: others :=
    ⟨(List.range 99).map fun i => UInt16.ofNat (i + 1), by decide +kernel⟩
  -- node 1 answers all contests, and after it node 2 the first one
  let answers : List (UInt16 × UInt8) := (0 :: others ++ [100]).map (·, 1) ++ [(0, 2)]
  have hanswers := ofUnicast_answers (k := 0) (.zeroed .ideal) answers
  have hremembered := (winners_start_iff .stored 0 0 _ hanswers).mp (hclaim .stored 0 0 _ hanswers)
  have hids : answers.map Prod.fst = (0 :: others) ++ [100, 0] := by
    simp [answers, Function.comp_def]
  exact not_steps_forgotten hnodup hlen hid (hids ▸ steps_answers.mp hremembered)

theorem winners_start_iff_answered :
    (run (nodeStep .stored) (.start 0)
        ([(7, 1), (7, 2)].map (answerOf (.zeroed .ideal)))).link.winners 7 =
        ((firstReply 7 ([(7, 1), (7, 2)].map (answerOf (.zeroed .ideal)))).map
          nodePort).toList ↔
      WinnerRemembered .stored 7 (.start 0) ([(7, 1), (7, 2)].map (answerOf (.zeroed .ideal))) :=
  winners_start_iff .stored 7 0 _ (ofUnicast_answers (.zeroed .ideal) [(7, 1), (7, 2)])

end MeshNet
