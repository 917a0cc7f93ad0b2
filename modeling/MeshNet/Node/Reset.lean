import MeshNet.Node.Fresh

/-!
# Starting afresh

A reset is to bring a node back to its start. It forgets the routes and clears the table of
ids, but it keeps the counter of the table's slots in use, so that as many slots as before now
hold the id zero; and it keeps the connections to the server.
-/

namespace MeshNet
open Library

/-- The node with nothing observed of it yet. -/
def Node.unobserved (n : Node) : Node := { n with link := { n.link with trace := [] } }

/-- From now on nobody can tell the two nodes apart: whatever they are sent and whatever the
network does, they do the same and learn the same routes. -/
def SameBehaviour (z : Zlib) (n m : Node) : Prop :=
  ∀ later : List (Env × List UInt8),
    (run (nodeStep z) n.unobserved later).link.trace =
        (run (nodeStep z) m.unobserved later).link.trace ∧
      (run (nodeStep z) n.unobserved later).routing = (run (nodeStep z) m.unobserved later).routing

/-! ## What the slots for connections hold -/

/-- A slot is free or holds a connection, whose port is not the one that marks a free slot. -/
def Link.WellFormed (l : Link) : Prop :=
  ∀ c ∈ l.connections, c = .free ∨ 0 < c.fd ∧ c.port.toNat < 65535

variable {z : Zlib} {env : Env} {n : Node} {l : Link}

theorem wellFormed_getConnAndSend {net : Net} {port : UInt16} (bytes : List UInt8)
    (hport : port.toNat < 65535) (h : l.WellFormed) :
    (l.getConnAndSend net port bytes).2.WellFormed := by
  obtain ⟨-, -, heq⟩ | ⟨-, i, c, -, -, hfd, heq⟩ | ⟨-, heq, -⟩ := Link.getConn_cases net l port
  · intro c hc
    exact h c (by simpa [Link.getConnAndSend, heq] using hc)
  · intro c' hc'
    have hmem : c' ∈ l.connections.set i ⟨net.connect l.trace.length port, port⟩ := by
      simpa [Link.getConnAndSend, heq, Link.setConn] using hc'
    obtain hold | rfl := List.mem_or_eq_of_mem_set hmem
    · exact h c' hold
    · exact .inr ⟨hfd, hport⟩
  · intro c hc
    exact h c (by simpa [Link.getConnAndSend, heq] using hc)

theorem wellFormed_resetConnections (h : l.WellFormed) : l.resetConnections.WellFormed := by
  intro c hc
  obtain ⟨c', hc', rfl⟩ := List.mem_map.mp hc
  split
  · exact .inl rfl
  · exact h c' hc'

theorem wellFormed_emits {apps : List App} {a : AppPayload} {l' : Link}
    (h : Emits z env apps a l l') (hl : l.WellFormed) : l'.WellFormed :=
  h.invariant (fun _ _ bytes hs => wellFormed_getConnAndSend bytes hs.ne_max) (fun _ _ h => h) hl

theorem wellFormed_nodeStep {i : Env × List UInt8} (h : n.link.WellFormed) :
    (nodeStep z n i).link.WellFormed := by
  unfold nodeStep nodeHandleRequest
  split
  · rename_i incoming _
    by_cases hreset : incoming.sender = .known .server ∧ incoming.parsed.req = .known .reset
    · have hlink : (nodeListenerHandle z i.1 n incoming.sender incoming.parsed).2 =
          handleReset n := by
        simp only [nodeListenerHandle, nodeHandleServer, hreset]
      rw [hlink]
      exact wellFormed_resetConnections h
    · obtain ⟨a, ha⟩ : ∃ a, Emits z i.1 n.apps a n.link
          (nodeListenerHandle z i.1 n incoming.sender incoming.parsed).2.link :=
        exists_emits_nodeListenerHandle hreset
      exact wellFormed_emits ha h
  · exact h

theorem wellFormed_run_start (addr : UInt8) (is : List (Env × List UInt8)) :
    (run (nodeStep z) (.start addr) is).link.WellFormed :=
  run_invariant (fun n : Node => n.link.WellFormed) (fun _ _ => wellFormed_nodeStep)
    fun _ hc => .inl (List.eq_of_mem_replicate hc)

/-! ## When nothing is left behind -/

/-- Without a connection to the server a reset frees every slot. -/
theorem connections_resetConnections (hl : l.WellFormed) (hclosed : l.isOpen serverPort = false) :
    l.resetConnections.connections = List.replicate connectionsCount .free := by
  refine List.eq_replicate_iff.mpr ⟨l.resetConnections.length_connections, fun c hc => ?_⟩
  obtain ⟨c', hc', rfl⟩ := List.mem_map.mp hc
  obtain rfl | ⟨hfd, hport⟩ := hl c' hc'
  · exact ite_self _
  · have hserver : c'.port ≠ serverPort := by
      rintro hserver
      have hno := List.any_eq_false.mp hclosed c' hc'
      simp [Conn.isLive, hfd, hserver] at hno
    exact if_pos ⟨hserver, hfd, UInt16.lt_iff_toNat_lt.mpr hport⟩

theorem fillMessagesDefault_eq_initial {t : MessageTable} (h : t.messageNum = 0) :
    t.fillMessagesDefault = .initial := by
  cases t
  cases h
  rfl

theorem handleReset_eq_start (hl : n.link.WellFormed) (hnum : n.messages.messageNum = 0)
    (hclosed : n.link.isOpen serverPort = false) :
    (handleReset n).unobserved = .start n.addr := by
  have hlink : { n.link.resetConnections with trace := [] } = Link.initial := by
    rw [Link.initial, Link.mk.injEq]
    exact ⟨connections_resetConnections hl hclosed, rfl⟩
  simp only [Node.unobserved, handleReset, Node.start, fillMessagesDefault_eq_initial hnum, hlink]

/-! ## What is left behind shows -/

/-- The counter of slots makes the id zero look known. -/
theorem lookup_fillMessagesDefault {t : MessageTable} (h : t.messageNum ≠ 0) :
    t.fillMessagesDefault.lookup 0 = some (.clean 0) := by
  obtain ⟨k, hk⟩ := Nat.exists_eq_succ_of_ne_zero h
  have hlive : t.fillMessagesDefault.live = List.replicate (min t.messageNum maxMessageData)
      (.clean 0) := List.take_replicate
  have hmin : min t.messageNum maxMessageData = k + 1 := by have := t.messageNum_le; omega
  rw [MessageTable.lookup, hlive, hmin, List.replicate_succ]
  rfl

/-- A message with no text and the id zero. -/
def AppPayload.blank (reqType : AppRequest) : AppPayload :=
  ⟨.known reqType, 0, 0, 0, 0, .zero, 0⟩

theorem fits_blank (reqType : AppRequest) : (AppPayload.blank reqType).Fits := Nat.zero_le _

/-- A neighbour answers a unicast contest. -/
def contestant : UnicastContest := ⟨.known .unicastFirst, 1, .blank .unicast⟩

/-- The contest that a freshly started node decides is already decided where ids are left. -/
theorem not_sameBehaviour_of_messageNum (h : n.messages.messageNum ≠ 0) (addr : UInt8) :
    ¬ SameBehaviour z (handleReset n) (.start addr) := by
  intro hsame
  have hstep : ∀ m : Node, nodeStep z m (.zeroed .ideal,
      (createContest .unicastFirst .node contestant).sent fun _ => 0) =
      handleUnicastFirst (.zeroed .ideal) m (contestant.received .zero) := fun m =>
    nodeStep_contest rfl (fits_blank _) _
  have htrace := (hsame [(.zeroed .ideal,
    (createContest .unicastFirst .node contestant).sent fun _ => 0)]).1
  rw [run_cons, run_nil, run_cons, run_nil, hstep, hstep] at htrace
  have hreset : (handleUnicastFirst (.zeroed .ideal) (handleReset n).unobserved
      (contestant.received .zero)).link.trace = [] := by
    have hflag : ((handleReset n).unobserved.messages.getUnicastStatusById
        (contestant.received .zero).appPayload.id).1 = some false := by
      refine (MessageTable.getFlag_fst _).trans ?_
      rw [show (handleReset n).unobserved.messages.lookup
        (contestant.received .zero).appPayload.id = some (.clean 0) from
          lookup_fillMessagesDefault h]
      rfl
    simp only [handleUnicastFirst, hflag]
    rfl
  have hfresh : (handleUnicastFirst (.zeroed .ideal) (Node.start addr).unobserved
      (contestant.received .zero)).link.trace ≠ [] := by
    have hflag : ((Node.start addr).unobserved.messages.getUnicastStatusById
        (contestant.received .zero).appPayload.id).1 = none := rfl
    simp only [handleUnicastFirst, hflag, sendPacket, Link.getConnAndSend_trace]
    simp
  exact hfresh (htrace ▸ hreset)

/-- A network in which nobody can be connected to any more, and old connections work. -/
def Net.deaf : Net := ⟨fun _ _ => -1, fun _ _ => true, fun _ => true, fun _ _ => .inl rfl⟩

/-- The server sends a node a message that it is itself to receive. -/
def toItself (addr : UInt8) : NodePacket :=
  NodePacket.renewed ⟨addr, addr, addr, ttl, .blank .delivery, 0⟩

theorem resetConnections_isOpen (h : l.isOpen serverPort = true) :
    l.resetConnections.isOpen serverPort = true := by
  obtain ⟨c, hc, hlive⟩ := List.any_eq_true.mp h
  have hport : c.port = serverPort := by simp_all
  refine List.any_eq_true.mpr ⟨c, List.mem_map.mpr ⟨c, hc, ?_⟩, hlive⟩
  simp [hport]

theorem getConnAndSend_deaf (port : UInt16) (bytes : List UInt8) :
    (l.getConnAndSend .deaf port bytes).1 = l.isOpen port := by
  obtain ⟨hopen, hfd, -⟩ | ⟨-, i, c, -, -, hfd, -⟩ | ⟨hclosed, heq, -⟩ :=
    Link.getConn_cases .deaf l port
  · have hok : (0 : Int) ≤ (Link.getConn .deaf l port).1 := Int.le_of_lt hfd
    simp [Link.getConnAndSend, hopen, hok,
      show ∀ k p, Net.deaf.write k p = true from fun _ _ => rfl]
  · exact absurd hfd (show ¬ (0 : Int) < -1 by decide)
  · simp [Link.getConnAndSend, heq, hclosed]

theorem told_handToAppAndNotify_deaf (l : Link) (a : AppPayload) :
    (handToAppAndNotify z (.zeroed .deaf) n l a).2.1 = l.isOpen serverPort :=
  getConnAndSend_deaf _ _

/-- Whether a node could tell the server what its app did is seen in its trace. -/
theorem told_of_trace {m : Node} {k k' : Link} {a : AppPayload} (hk : k.trace = k'.trace)
    (h : (handToAppAndNotify z env n k a).2.2.trace =
      (handToAppAndNotify z env m k' a).2.2.trace) :
    (handToAppAndNotify z env n k a).2.1 = (handToAppAndNotify z env m k' a).2.1 := by
  obtain ⟨left, htrace⟩ := trace_handToAppAndNotify z env n k a
  obtain ⟨left', htrace'⟩ := trace_handToAppAndNotify z env m k' a
  rw [htrace, htrace', hk, List.append_cancel_left_eq] at h
  simp only [List.cons.injEq, Event.send.injEq] at h
  exact h.2.1.2.2

theorem nodeStep_toItself (addr : UInt8) {m : Node} (hm : m.addr = addr) :
    (nodeStep z m (.zeroed .deaf,
      (createPacket .send .server (toItself addr)).sent fun _ => 0)).link =
    (handToAppAndNotify z (.zeroed .deaf) m m.link
      ((toItself addr).received .zero).appPayload).2.2 := by
  have hfits : (toItself addr).appPayload.Fits := fits_blank _
  have hvalid : isValidCrc ((toItself addr).received .zero) = true := by
    rw [isValidCrc, hfits.packetCrc_received]
    exact isValidCrc_renewed (p := ⟨addr, addr, addr, ttl, .blank .delivery, 0⟩) (fits_blank _)
  rw [nodeStep_packet rfl hfits]
  exact handleServerSend_of_receiver .send hvalid hm.symm

/-- The node that kept its connection can tell the server what a freshly started one cannot. -/
theorem not_sameBehaviour_of_isOpen (h : n.link.isOpen serverPort = true) :
    ¬ SameBehaviour z (handleReset n) (.start n.addr) := by
  intro hsame
  have htrace := (hsame [(.zeroed .deaf,
    (createPacket .send .server (toItself n.addr)).sent fun _ => 0)]).1
  rw [run_cons, run_nil, run_cons, run_nil,
    nodeStep_toItself n.addr (m := (handleReset n).unobserved) rfl,
    nodeStep_toItself n.addr (m := (Node.start n.addr).unobserved) rfl] at htrace
  have htold := told_of_trace
    (show (handleReset n).unobserved.link.trace =
      (Node.start n.addr).unobserved.link.trace from rfl)
    htrace
  have hkept : (handleReset n).unobserved.link.isOpen serverPort = true := resetConnections_isOpen h
  have hnew : (Node.start n.addr).unobserved.link.isOpen serverPort = false := rfl
  rw [told_handToAppAndNotify_deaf, told_handToAppAndNotify_deaf, hkept, hnew] at htold
  exact Bool.noConfusion htold

/-- A reset is as good as a start exactly when the node has used no slot of its table and is
not connected to the server. -/
theorem handleReset_sameBehaviour_iff (z : Zlib) (addr : UInt8) (is : List (Env × List UInt8)) :
    SameBehaviour z (handleReset (run (nodeStep z) (.start addr) is)) (.start addr) ↔
      (run (nodeStep z) (.start addr) is).messages.messageNum = 0 ∧
        (run (nodeStep z) (.start addr) is).link.isOpen serverPort = false := by
  have haddr := (run_sameHost (z := z) addr is).1
  have hlink := wellFormed_run_start (z := z) addr is
  generalize run (nodeStep z) (.start addr) is = n at *
  change n.addr = addr at haddr
  subst haddr
  constructor
  · intro hsame
    constructor
    · by_contra hnum
      exact not_sameBehaviour_of_messageNum hnum _ hsame
    · by_contra hopen
      exact not_sameBehaviour_of_isOpen (eq_true_of_ne_false hopen) hsame
  · rintro ⟨hnum, hclosed⟩ later
    rw [handleReset_eq_start hlink hnum hclosed]
    exact ⟨rfl, rfl⟩

/-- One answered message is enough to make a difference. -/
theorem handleReset_forgets_counter :
    ¬ ∀ (z : Zlib) (addr : UInt8) (is : List (Env × List UInt8)),
      SameBehaviour z (handleReset (run (nodeStep z) (.start addr) is)) (.start addr) := by
  intro hclaim
  have hmessages : (run (nodeStep .stored) (.start 5) (deliveries [7])).messages =
      deliverMessage .initial 7 := messages_run_deliveries rfl
  refine not_sameBehaviour_of_messageNum ?_ 5 (hclaim .stored 5 (deliveries [7]))
  rw [hmessages]
  decide

end MeshNet
