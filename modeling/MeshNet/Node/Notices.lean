import MeshNet.Node.Run

/-!
# What a node tells the server

Whoever hands a message to its app tells the server what came of it. A unicast message that another
node has sent is announced to the server as well before the app gets it.
-/

namespace MeshNet
open Library

/-- The app was handed the message `id`, or the server was told something. -/
inductive Notice where
  | handed (id : UInt16) (accepted : Bool)
  | told (notify : Notify)
  deriving DecidableEq

def Event.notice? : Event → Option Notice
  | .app given accepted _ => some (.handed given.id accepted)
  | .send port bytes _ =>
    if port = serverPort then
      match receive .zero (fun _ => 0) bytes with
      | some ⟨.known .node, ⟨.known .notify, some (.notify notify), _⟩⟩ => some (.told notify)
      | _ => none
    else none
  | .reply .. => none

def Link.notices (l : Link) : List Notice := l.trace.filterMap Event.notice?

def newNotices (z : Zlib) (n : Node) (i : Env × List UInt8) : List Notice :=
  (newEvents z n i).filterMap Event.notice?

/-- What is to be told of a message, and when. -/
def report (id : UInt16) (accepted : Bool) : List Notice :=
  [.handed id accepted, .told ⟨.known (if accepted then .gotMessage else .fail), id⟩]

/-- Another node sends a unicast message. -/
def UnicastSend (i : Env × List UInt8) : Prop :=
  ∃ p died, receive i.1.heap i.1.stack i.2 =
    some ⟨.known .node, ⟨.known .send, some (.packet p), died⟩⟩ ∧
      p.appPayload.reqType = .known .unicast

/-- A unicast message from another node is for this one, whose app does not take it. -/
def Refuses (z : Zlib) (n : Node) (i : Env × List UInt8) : Prop :=
  ∃ p died, receive i.1.heap i.1.stack i.2 =
    some ⟨.known .node, ⟨.known .send, some (.packet p), died⟩⟩ ∧
      isValidCrc p = true ∧ p.receiverAddr = n.addr ∧ p.appPayload.reqType = .known .unicast ∧
        (nodeAppHandleRequest z i.1.inflated n.apps p.appPayload).1 = false

/-- What arrives is handed to the app. -/
def Hands (z : Zlib) (n : Node) (i : Env × List UInt8) : Prop :=
  ∃ given accepted left, .app given accepted left ∈ newEvents z n i

/-- Of what is handed to the app the server is told once, after it, and what came of it. -/
def Reports (z : Zlib) (n : Node) (i : Env × List UInt8) : Prop :=
  ∀ given accepted left, .app given accepted left ∈ newEvents z n i →
    newNotices z n i = report given.id accepted

variable {z : Zlib} {env : Env} {n : Node} {i : Env × List UInt8} {l l' : Link}

/-! ## The parts of the handlers -/

theorem notices_send {net : Net} {port : UInt16} (hport : port ≠ serverPort) (bytes : List UInt8) :
    (l.getConnAndSend net port bytes).2.notices = l.notices := by
  have hnone : Event.notice? (.send port bytes (l.getConnAndSend net port bytes).1) = none :=
    if_neg hport
  rw [Link.notices, Link.getConnAndSend_trace, List.filterMap_append, List.filterMap_cons, hnone]
  exact List.append_nil _

theorem notices_sendAll {net : Net} {ports : List UInt16} (hports : serverPort ∉ ports)
    (bytes : List UInt8) : (l.sendAll net ports bytes).notices = l.notices := by
  induction ports generalizing l with
  | nil => rfl
  | cons port ports ih =>
    obtain ⟨hport, hports⟩ := not_or.mp (List.mem_cons.not.mp hports)
    exact (ih hports).trans (notices_send (Ne.symm hport) bytes)

theorem notices_broadcast {ports : List UInt16} (hports : serverPort ∉ ports) (p : NodePacket) :
    (l.broadcast env ports p).notices = l.notices := by
  induction ports generalizing l with
  | nil => rfl
  | cons port ports ih =>
    obtain ⟨hport, hports⟩ := not_or.mp (List.mem_cons.not.mp hports)
    exact (ih hports).trans (notices_send (Ne.symm hport) _)

theorem serverPort_not_mem_neighbors : serverPort ∉ n.neighbors := by
  intro h
  obtain ⟨b, heq, -⟩ := exists_of_mem_fillNeighborsPort h
  exact nodePort_ne_serverPort b heq.symm

theorem notices_broadcastRoute (p : NodePacket) :
    (l.broadcastRoute env n.neighbors p false).notices = l.notices :=
  notices_sendAll serverPort_not_mem_neighbors _

theorem notices_sendPacket (addr : UInt8) (req : Request) (p : NodePacket) :
    (sendPacket env l addr req p).2.notices = l.notices :=
  notices_send (nodePort_ne_serverPort addr) _

theorem notice?_notify (notify : Notify) (ok : Bool) :
    Event.notice? (.send serverPort ((createNotify .node notify).sent env.stack) ok) =
      some (.told notify) := by
  rw [Event.notice?, if_pos rfl, receive_notify]

theorem notices_notifyServer (notify : Notify) :
    (l.notifyServer env notify).2.notices = l.notices ++ [.told notify] := by
  have htrace : (l.notifyServer env notify).2.trace = l.trace ++ [_] := Link.getConnAndSend_trace
  rw [Link.notices, htrace, List.filterMap_append, List.filterMap_cons, notice?_notify]
  rfl

/-- Whether the app takes the message. -/
abbrev accepts (z : Zlib) (env : Env) (n : Node) (a : AppPayload) : Bool :=
  (nodeAppHandleRequest z env.inflated n.apps a).1

theorem notices_handToAppAndNotify (a : AppPayload) :
    (handToAppAndNotify z env n l a).2.2.notices =
      l.notices ++ report a.id (accepts z env n a) := by
  refine (notices_notifyServer _).trans ?_
  simp [handToApp, Link.notices, Event.notice?, report, accepts]
  rfl

/-! ## The handlers -/

theorem notices_handleServerSend (cmd : Request) (p : NodePacket) :
    (handleServerSend z env n cmd p).2.link.notices = n.link.notices ∨
      ∃ a, (handleServerSend z env n cmd p).2.link.notices =
        n.link.notices ++ report a.id (accepts z env n a) := by
  unfold handleServerSend
  split
  · exact .inl rfl
  · dsimp only
    split
    · exact .inr ⟨_, notices_handToAppAndNotify _⟩
    · split
      · exact .inl (notices_broadcastRoute _)
      · exact .inl (notices_sendPacket ..)

/-- A unicast message is announced before it is handed over. -/
theorem notices_nodeHandleAppRequest (p : NodePacket) :
    (nodeHandleAppRequest z env n p).2.link.notices = n.link.notices ++
      ((if p.appPayload.reqType = .known .unicast then
        [.told ⟨.known .gotMessage, p.appPayload.id⟩] else []) ++
        report p.appPayload.id (accepts z env n p.appPayload)) := by
  unfold nodeHandleAppRequest
  dsimp only
  rw [notices_handToAppAndNotify]
  split
  · rw [notices_notifyServer, List.append_assoc]
  · rw [List.nil_append]

theorem notices_handleNodeSend (p : NodePacket) :
    (handleNodeSend z env n p).2.link.notices = n.link.notices ∨
      isValidCrc p = true ∧ p.receiverAddr = n.addr ∧
        (handleNodeSend z env n p).2.link.notices = n.link.notices ++
          ((if p.appPayload.reqType = .known .unicast then
            [.told ⟨.known .gotMessage, p.appPayload.id⟩] else []) ++
            report p.appPayload.id (accepts z env n p.appPayload)) := by
  unfold handleNodeSend
  split
  · exact .inl rfl
  · rename_i hcrc
    split
    · rename_i hto
      exact .inr ⟨by simpa using hcrc, hto, notices_nodeHandleAppRequest p⟩
    · unfold sendNext
      dsimp only
      split
      · exact .inl (notices_broadcastRoute _)
      · exact .inl (notices_sendPacket ..)

theorem notices_routeDirectHandleDelivered (p : NodePacket) :
    (routeDirectHandleDelivered z env n p).2.link.notices = n.link.notices ∨
      ∃ a, (routeDirectHandleDelivered z env n p).2.link.notices =
        n.link.notices ++ report a.id (accepts z env n a) := by
  unfold routeDirectHandleDelivered
  split
  · exact .inl rfl
  · dsimp only
    split
    · exact .inl rfl
    · split
      · exact .inl rfl
      · split
        · exact .inl (notices_sendPacket ..)
        · exact .inr ⟨_, (notices_handToAppAndNotify _).trans
            (congrArg (· ++ _) (notices_sendPacket ..))⟩

theorem notices_handleNodeRouteDirect (p : NodePacket) :
    (handleNodeRouteDirect z env n p).2.link.notices = n.link.notices ∨
      ∃ a, (handleNodeRouteDirect z env n p).2.link.notices =
        n.link.notices ++ report a.id (accepts z env n a) := by
  unfold handleNodeRouteDirect
  split
  · exact .inl rfl
  · split
    · exact .inl rfl
    · dsimp only
      split
      · exact .inl rfl
      · split
        · exact notices_routeDirectHandleDelivered _
        · exact .inl (notices_broadcastRoute _)

theorem notices_handleNodeRouteInverse (p : NodePacket) :
    (handleNodeRouteInverse env n p).2.link.notices = n.link.notices := by
  unfold handleNodeRouteInverse
  dsimp only
  split_ifs
  · rfl
  · rfl
  · rfl
  · exact notices_sendPacket ..
  · exact notices_sendPacket ..

theorem notices_handleUnicastFirst (c : UnicastContest) :
    (handleUnicastFirst env n c).link.notices = n.link.notices := by
  unfold handleUnicastFirst
  dsimp only
  split
  · rfl
  · rfl
  · exact notices_sendPacket ..

/-! ## What arrives -/

/-- A step tells the server nothing, or reports a message that it hands to the app, or does so
after it has announced a unicast message. -/
theorem notices_nodeStep (z : Zlib) (n : Node) (i : Env × List UInt8) :
    (nodeStep z n i).link.notices = n.link.notices ∨
      (¬ UnicastSend i ∧ ∃ a, (nodeStep z n i).link.notices =
        n.link.notices ++ report a.id (accepts z i.1 n a)) ∨
      ∃ p died, receive i.1.heap i.1.stack i.2 =
          some ⟨.known .node, ⟨.known .send, some (.packet p), died⟩⟩ ∧
        isValidCrc p = true ∧ p.receiverAddr = n.addr ∧
        p.appPayload.reqType = .known .unicast ∧ (nodeStep z n i).link.notices =
          n.link.notices ++ .told ⟨.known .gotMessage, p.appPayload.id⟩ ::
            report p.appPayload.id (accepts z i.1 n p.appPayload) := by
  have hother : ∀ {incoming : Incoming}, receive i.1.heap i.1.stack i.2 = some incoming →
      ¬ (incoming.sender = .known .node ∧ incoming.parsed.req = .known .send) →
      ¬ UnicastSend i := by
    rintro incoming hreceive hnot ⟨p, died, hsend, -⟩
    cases hreceive.symm.trans hsend
    exact hnot ⟨rfl, rfl⟩
  unfold nodeStep nodeHandleRequest
  split
  · rename_i incoming hreceive
    obtain ⟨sender, req, payload, died⟩ := incoming
    dsimp only
    unfold nodeListenerHandle
    split
    · unfold nodeHandleServer
      dsimp only
      split
      · exact .inl (by simp [handlePing, Link.notices, Event.notice?])
      · exact (notices_handleServerSend _ _).imp_right fun h =>
          .inl ⟨hother hreceive (fun h => by cases h.1), h⟩
      · exact .inl rfl
      · exact .inl (notices_sendAll serverPort_not_mem_neighbors _)
      · exact .inl (notices_broadcast serverPort_not_mem_neighbors _)
      · exact .inl rfl
    · unfold nodeHandleNode
      dsimp only
      split
      · rename_i p
        obtain hsame | ⟨hcrc, hto, hnotices⟩ := notices_handleNodeSend (z := z) (n := n) p
        · exact .inl hsame
        · by_cases hunicast : p.appPayload.reqType = .known .unicast
          · rw [if_pos hunicast] at hnotices
            exact .inr (.inr ⟨p, died, hreceive, hcrc, hto, hunicast, hnotices⟩)
          · rw [if_neg hunicast] at hnotices
            refine .inr (.inl ⟨?_, _, hnotices⟩)
            rintro ⟨q, died', hsend, hq⟩
            cases hreceive.symm.trans hsend
            exact hunicast hq
      · exact (notices_handleNodeRouteDirect _).imp_right fun h =>
          .inl ⟨hother hreceive (fun h => by cases h.2), h⟩
      · exact .inl (notices_handleNodeRouteInverse _)
      · exact .inl (notices_send (nodePort_ne_serverPort _) _)
      · exact .inl (notices_handleUnicastFirst _)
      · exact .inl rfl
    · exact .inl rfl
  · exact .inl rfl

/-- A step hands over and sends one message and notifications, or it is a reset. -/
theorem exists_trace_nodeStep (z : Zlib) (n : Node) (i : Env × List UInt8) :
    ∃ a es, (nodeStep z n i).link.trace = n.link.trace ++ es ∧
      ∀ e ∈ es, e.Satisfies (Outgoing i.1 a) (Handed z i.1 n.apps a) := by
  have hnothing : ∃ (a : AppPayload) (es : List Event), n.link.trace = n.link.trace ++ es ∧
      ∀ e ∈ es, e.Satisfies (Outgoing i.1 a) (Handed z i.1 n.apps a) :=
    ⟨⟨.known .delivery, 0, 0, 0, 0, .zero, 0⟩, [], (List.append_nil _).symm, nofun⟩
  unfold nodeStep nodeHandleRequest
  split
  · rename_i incoming _
    obtain ⟨sender, req, payload, died⟩ := incoming
    by_cases hreset : sender = .known .server ∧ req = .known .reset
    · obtain ⟨rfl, rfl⟩ := hreset
      exact hnothing
    · obtain ⟨a, hemits⟩ := @exists_emits_nodeListenerHandle z i.1 n sender
        ⟨req, payload, died⟩ hreset
      exact ⟨a, hemits.trace⟩
  · exact hnothing

theorem trace_nodeStep (z : Zlib) (n : Node) (i : Env × List UInt8) :
    (nodeStep z n i).link.trace = n.link.trace ++ newEvents z n i := by
  obtain ⟨a, es, htrace, -⟩ := exists_trace_nodeStep z n i
  rw [newEvents, htrace, List.drop_left]

theorem newNotices_eq {ns : List Notice}
    (h : (nodeStep z n i).link.notices = n.link.notices ++ ns) : newNotices z n i = ns := by
  rw [Link.notices, trace_nodeStep, List.filterMap_append] at h
  exact List.append_cancel_left h

theorem mem_newNotices {given left : AppPayload} {accepted : Bool}
    (h : .app given accepted left ∈ newEvents z n i) :
    .handed given.id accepted ∈ newNotices z n i :=
  List.mem_filterMap.mpr ⟨_, h, rfl⟩

theorem hands_of_mem {id : UInt16} {accepted : Bool}
    (h : .handed id accepted ∈ newNotices z n i) : Hands z n i := by
  obtain ⟨e, he, heq⟩ := List.mem_filterMap.mp h
  cases e with
  | app given accepted left => exact ⟨given, accepted, left, he⟩
  | send port bytes ok =>
    unfold Event.notice? at heq
    dsimp only at heq
    split at heq
    · split at heq <;> cases heq
    · cases heq
  | reply res ok => cases heq

/-- The server is told once what came of a message, after it was handed to the app, exactly when
it is not a unicast message from another node. -/
theorem reports_iff (h : Hands z n i) : Reports z n i ↔ ¬ UnicastSend i := by
  obtain ⟨given, accepted, left, happ⟩ := h
  obtain hsame | ⟨hnot, a, hnotices⟩ | ⟨p, died, hreceive, -, -, hunicast, hnotices⟩ :=
    notices_nodeStep z n i
  · have hnone := newNotices_eq (hsame.trans (List.append_nil _).symm)
    exact absurd (hnone ▸ mem_newNotices happ) List.not_mem_nil
  · have hreport := newNotices_eq hnotices
    refine iff_of_true (fun given' accepted' left' happ' => ?_) hnot
    have hmem := mem_newNotices happ'
    rw [hreport] at hmem ⊢
    obtain ⟨hid, haccepted⟩ : given'.id = a.id ∧ accepted' = accepts z i.1 n a := by
      simpa [report] using hmem
    rw [hid, haccepted]
  · refine iff_of_false (fun hreports => ?_) (fun hnot => hnot ⟨p, died, hreceive, hunicast⟩)
    have hlength := congrArg List.length ((newNotices_eq hnotices).symm.trans
      (hreports given accepted left happ))
    simp [report] at hlength

/-! ## What leaves for the server -/

theorem told_of_send {bytes : List UInt8} {ok : Bool}
    (h : .send serverPort bytes ok ∈ newEvents z n i) :
    ∃ notify buf, bytes = (createNotify .node notify).sent buf ∧
      .told notify ∈ newNotices z n i := by
  have hsends : ∃ notify : Notify, bytes = (createNotify .node notify).sent i.1.stack := by
    obtain ⟨a, es, htrace, hes⟩ := exists_trace_nodeStep z n i
    rw [newEvents, htrace, List.drop_left] at h
    have hout : Outgoing i.1 a serverPort bytes := hes (.send serverPort bytes ok) h
    generalize hport : serverPort = port at hout
    cases hout with
    | notify notify => exact ⟨notify, rfl⟩
    | packet addr => exact absurd hport.symm (nodePort_ne_serverPort addr)
    | contest addr => exact absurd hport.symm (nodePort_ne_serverPort addr)
  obtain ⟨notify, rfl⟩ := hsends
  exact ⟨notify, _, rfl, List.mem_filterMap.mpr ⟨_, h, notice?_notify notify ok⟩⟩

/-- Success is only told of messages that the app takes, where none is announced that it does
not. -/
theorem handed_of_told {id : UInt16} (hnot : ¬ Refuses z n i)
    (h : .told ⟨.known .gotMessage, id⟩ ∈ newNotices z n i) :
    .handed id true ∈ newNotices z n i := by
  obtain hsame | ⟨-, a, hnotices⟩ | ⟨p, died, hreceive, hcrc, hto, hunicast, hnotices⟩ :=
    notices_nodeStep z n i
  · rw [newNotices_eq (hsame.trans (List.append_nil _).symm)] at h
    exact absurd h List.not_mem_nil
  · rw [newNotices_eq hnotices] at h ⊢
    cases haccepted : accepts z i.1 n a with
    | true => simp_all [report]
    | false => simp_all [report]
  · rw [newNotices_eq hnotices] at h ⊢
    cases haccepted : accepts z i.1 n p.appPayload with
    | true => simp_all [report]
    | false => exact absurd ⟨p, died, hreceive, hcrc, hto, hunicast, haccepted⟩ hnot

end MeshNet
