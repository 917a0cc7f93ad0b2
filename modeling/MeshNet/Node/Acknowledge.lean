import MeshNet.Node.Hops

/-!
# Acknowledgements that fail

The receiver of a flooded message marks it as handled and as answered before it sends the inverse
packet, and gives the message to its app only after that. Where there is no way back, or the
inverse packet cannot be sent, the marks stay, and no later copy of the message is looked at.
-/

namespace MeshNet
open Library

/-- The message goes to the app, and the server is told what came of it. -/
def Delivers (z : Zlib) (env : Env) (n : Node) (p : NodePacket) : Prop :=
  ∃ before accepted left, (handleNodeRouteDirect z env n p).2.link.trace =
    n.link.trace ++ before ++ [.app p.appPayload accepted left,
      .send serverPort ((createNotify .node
        ⟨.known (if accepted then .gotMessage else .fail), p.appPayload.id⟩).sent env.stack) true]

/-- The flags of the message are as they were, and a later copy is not ignored. -/
def Leaves (z : Zlib) (env : Env) (n : Node) (p : NodePacket) : Prop :=
  (handleNodeRouteDirect z env n p).2.messages.lookup p.appPayload.id =
      n.messages.lookup p.appPayload.id ∧
    ¬ (handleNodeRouteDirect z env n p).2.messages.Taken p.appPayload.id

/-- Where the inverse packet is sent. -/
def Node.backHop (n : Node) (p : NodePacket) : UInt8 :=
  (n.takeIn p).routing.nextAddr p.senderAddr

/-- The message is not marked as handled nor, in the slot its id has or is given, as answered;
there is a way back, the next hop on it gets the inverse packet and the server its notification. -/
structure Acknowledged (env : Env) (n : Node) (p : NodePacket) : Prop where
  new : ¬ n.messages.Taken p.appPayload.id
  unanswered : (n.messages.entry p.appPayload.id).stopInverse = false
  route : n.routing.WayBack p
  hop : n.link.Reaches env.net n.link.trace.length (nodePort (n.backHop p))
  server : (n.link.getConn env.net (nodePort (n.backHop p))).2.Reaches env.net
    (n.link.trace.length + 2) serverPort

variable {z : Zlib} {env : Env} {n : Node} {p : NodePacket} {l l' : Link} {net : Net}

theorem reaches_congr (h : l.connections = l'.connections) (k : Nat) (port : UInt16) :
    l.Reaches net k port ↔ l'.Reaches net k port := by
  unfold Link.Reaches Link.isOpen
  rw [h]

/-- The notification comes two attempts after the inverse packet. -/
theorem told_iff (z : Zlib) (env : Env) (n : Node) (l : Link) (port : UInt16) (bytes : List UInt8)
    (a : AppPayload) :
    (handToAppAndNotify z env n (l.getConnAndSend env.net port bytes).2 a).2.1 = true ↔
      (l.getConn env.net port).2.Reaches env.net (l.trace.length + 2) serverPort := by
  have htrace : (l.getConnAndSend env.net port bytes).2.trace = l.trace ++ [_] :=
    Link.getConnAndSend_trace
  refine getConnAndSend_fst_iff.trans ?_
  have hlength : (handToApp z env n (l.getConnAndSend env.net port bytes).2 a).2.trace.length =
      l.trace.length + 2 := by
    rw [handToApp, Link.push_trace, htrace]
    simp
  rw [hlength]
  exact reaches_congr rfl _ _

/-- A copy that is looked at is marked as handled. -/
theorem not_leaves (hv : p.Valid) : ¬ Leaves z env n p := by
  rintro ⟨-, htaken⟩
  by_cases h : n.messages.Taken p.appPayload.id
  · exact htaken (by rwa [handleNodeRouteDirect_of_taken h])
  · exact htaken (lookup_handleNodeRouteDirect hv h).1

theorem not_delivers (h : (handleNodeRouteDirect z env n p).2.link.trace = n.link.trace) :
    ¬ Delivers z env n p := by
  rintro ⟨before, accepted, left, htrace⟩
  rw [h, List.append_assoc] at htrace
  have hlength := congrArg List.length htrace
  simp at hlength

/-- The delivery of a message for the first time, as far as the sending of the inverse packet. -/
theorem handleNodeRouteDirect_of_route (z : Zlib) (env : Env) (hv : p.Valid)
    (haddr : p.receiverAddr = n.addr)
    (htaken : ¬ n.messages.Taken p.appPayload.id)
    (hanswered : ¬ (n.takeIn p).messages.Answered p.appPayload.id)
    (hroute : n.backHop p ≠ noAddr) :
    let sent := sendPacket env n.link (n.backHop p) .routeInverse (p.inverse n.addr)
    (handleNodeRouteDirect z env n p).2.link.trace =
      if sent.1 = true then
        (handToAppAndNotify z env (n.takeIn p) sent.2 p.appPayload).2.2.trace
      else sent.2.trace := by
  dsimp only
  rw [handleNodeRouteDirect_of_not_taken hv htaken, if_pos haddr,
    routeDirectHandleDelivered_of_not_answered hv.2 hanswered]
  unfold Node.backHop at hroute ⊢
  dsimp only
  rw [if_neg hroute]
  cases h : (sendPacket env (n.takeIn p).link ((n.takeIn p).routing.nextAddr p.senderAddr)
      .routeInverse (p.inverse (n.takeIn p).addr)).1 with
  | true => exact (if_pos h).symm
  | false => exact (if_neg (Bool.eq_false_iff.mp h)).symm

/-- A message gets to its app and the server hears of it if and only if the inverse packet and the
notification can be sent and nothing says that this has been done. -/
theorem delivers_iff (hv : p.Valid) (haddr : p.receiverAddr = n.addr) :
    Delivers z env n p ↔ Acknowledged env n p := by
  by_cases htaken : n.messages.Taken p.appPayload.id
  · exact iff_of_false (not_delivers (by rw [handleNodeRouteDirect_of_taken htaken]))
      fun h => h.new htaken
  have hflag : (n.takeIn p).messages.Answered p.appPayload.id ↔
      (n.messages.entry p.appPayload.id).stopInverse = true := by
    simp [MessageTable.Answered, lookup_takeIn_self]
  by_cases hanswered : (n.takeIn p).messages.Answered p.appPayload.id
  · refine iff_of_false (not_delivers ?_) fun h => ?_
    · rw [handleNodeRouteDirect_of_not_taken hv htaken, if_pos haddr,
        routeDirectHandleDelivered_of_answered hv.2 hanswered]
      rfl
    · rw [hflag, h.unanswered] at hanswered
      cases hanswered
  by_cases hroute : n.backHop p = noAddr
  · refine iff_of_false (not_delivers ?_) fun h => nextAddr_takeIn_ne_iff.mpr h.route hroute
    rw [handleNodeRouteDirect_of_not_taken hv htaken, if_pos haddr,
      routeDirectHandleDelivered_of_not_answered hv.2 hanswered]
    dsimp only
    rw [if_pos (show (n.takeIn p).routing.nextAddr p.senderAddr = noAddr from hroute)]
    rfl
  have htrace := handleNodeRouteDirect_of_route z env hv haddr htaken hanswered hroute
  dsimp only at htrace
  by_cases hhop : n.link.Reaches env.net n.link.trace.length (nodePort (n.backHop p))
  · have hsent : (sendPacket env n.link (n.backHop p) .routeInverse (p.inverse n.addr)).1 = true :=
      getConnAndSend_fst_iff.mpr hhop
    obtain ⟨left, happ⟩ := trace_handToAppAndNotify z env (n.takeIn p)
      (sendPacket env n.link (n.backHop p) .routeInverse (p.inverse n.addr)).2 p.appPayload
    have hinverse : (sendPacket env n.link (n.backHop p) .routeInverse
        (p.inverse n.addr)).2.trace = n.link.trace ++ [_] := Link.getConnAndSend_trace
    rw [if_pos hsent, happ, hinverse] at htrace
    have htold := told_iff z env (n.takeIn p) n.link (nodePort (n.backHop p))
      ((createPacket .routeInverse .node (p.inverse n.addr)).sent env.stack) p.appPayload
    constructor
    · rintro ⟨before, accepted, left', hdelivers⟩
      have hlast := congrArg List.getLast? (htrace.symm.trans hdelivers)
      simp only [List.getLast?_append, List.getLast?_cons_cons, List.getLast?_singleton,
        Option.some_or, Option.some.injEq, Event.send.injEq] at hlast
      exact ⟨htaken, by rwa [hflag, Bool.not_eq_true] at hanswered,
        nextAddr_takeIn_ne_iff.mp hroute, hhop, htold.mp hlast.2.2⟩
    · intro h
      rw [show (handToAppAndNotify z env (n.takeIn p) (sendPacket env n.link (n.backHop p)
        .routeInverse (p.inverse n.addr)).2 p.appPayload).2.1 = true from htold.mpr h.server]
        at htrace
      exact ⟨_, _, left, htrace⟩
  · obtain ⟨hsent, hinverse⟩ :
        (sendPacket env n.link (n.backHop p) .routeInverse (p.inverse n.addr)).1 = false ∧
          (sendPacket env n.link (n.backHop p) .routeInverse (p.inverse n.addr)).2.trace =
            n.link.trace ++ [_] := sendPacket_of_unreached hhop
    rw [hsent, if_neg Bool.false_ne_true, hinverse] at htrace
    refine iff_of_false ?_ fun h => hhop h.hop
    rintro ⟨before, accepted, left, hdelivers⟩
    have hlast := congrArg List.getLast? (htrace.symm.trans hdelivers)
    simp at hlast

/-- A copy of a message for this node gets the message delivered, or leaves it to a later one, if
and only if it can be acknowledged. -/
theorem delivers_or_leaves_iff (z : Zlib) (env : Env) (n : Node) (p : NodePacket) (hv : p.Valid)
    (haddr : p.receiverAddr = n.addr) :
    Delivers z env n p ∨ Leaves z env n p ↔ Acknowledged env n p := by
  rw [or_iff_left (not_leaves hv)]
  exact delivers_iff hv haddr

theorem delivers_or_leaves_iff_addressed :
    Delivers .stored (.zeroed .ideal) (.start 5) (addressed 8) ∨
        Leaves .stored (.zeroed .ideal) (.start 5) (addressed 8) ↔
      Acknowledged (.zeroed .ideal) (.start 5) (addressed 8) :=
  delivers_or_leaves_iff .stored (.zeroed .ideal) (.start 5) (addressed 8) (addressed_valid 8) rfl

/-- The first copy of the first message, for which no connection comes about, is lost. -/
theorem delivers_or_leaves_deaf :
    ¬ ∀ (z : Zlib) (env : Env) (addr : UInt8) (is : List (Env × List UInt8)) (p : NodePacket),
      (∀ i ∈ is, messageId i ≠ some p.appPayload.id) → p.Valid → p.receiverAddr = addr →
      Delivers z env (run (nodeStep z) (.start addr) is) p ∨
        Leaves z env (run (nodeStep z) (.start addr) is) p := by
  intro hclaim
  have hsurvives := hclaim .stored (.zeroed .deaf) 5 [] (addressed 8) nofun (addressed_valid 8) rfl
  rw [run_nil, or_iff_left (not_leaves (addressed_valid 8)),
    delivers_iff (addressed_valid 8) rfl] at hsurvives
  exact absurd hsurvives.hop (by decide +kernel)

end MeshNet
