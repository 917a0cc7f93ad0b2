import MeshNet.Mesh.Delivery
import MeshNet.Mesh.Reports
import MeshNet.Server.Owing

/-!
# What clients are told

On a healthy network the client that has asked for a message is told one result at most, which an
app has given. If few messages are asked for after it, the client is told a result as soon as
nothing is on its way to the server any more that an app has said of the message.
-/

namespace MeshNet
open Library
open Mesh (asks)

/-- An app was given the message, with the result that the notification tells. A unicast message is
told to have succeeded whatever its app makes of it. -/
def Vouches (es : List Event) (notify : Notify) : Prop :=
  ∃ given accepted left, .app given accepted left ∈ es ∧ given.id = notify.appMsgId ∧
    (notify.type = .known (if accepted then .gotMessage else .fail) ∨
      given.reqType = .known .unicast ∧ notify.type = .known .gotMessage)

variable {z : Zlib} {env : Env} {senv : ServerEnv} {n : Node} {i : Env × List UInt8}
  {notify : Notify} {es es' : List Event} {k id : UInt16}

/-! ## What one node tells the server -/

theorem Vouches.mono (h : Vouches es notify) (hsub : es ⊆ es') : Vouches es' notify := by
  obtain ⟨given, accepted, left, happ, hrest⟩ := h
  exact ⟨given, accepted, left, hsub happ, hrest⟩

/-- A notification that is known is a result. -/
theorem Vouches.known (h : Vouches es notify) : ∃ type, notify.type = .known type := by
  obtain ⟨_, _, _, _, _, htype | ⟨_, htype⟩⟩ := h <;> exact ⟨_, htype⟩

theorem exists_app_of_handed {accepted : Bool}
    (h : .handed id accepted ∈ newNotices z n i) :
    ∃ given left, .app given accepted left ∈ newEvents z n i ∧ given.id = id := by
  obtain ⟨e, he, heq⟩ := List.mem_filterMap.mp h
  unfold Event.notice? at heq
  split at heq
  · cases heq
    exact ⟨_, _, he, rfl⟩
  · split at heq
    · split at heq <;> cases heq
    · cases heq
  · cases heq

/-- A message from another node is handed to the app as it is. -/
theorem exists_app_of_send {p : NodePacket} {died : Bool}
    (hreceive : receive i.1.heap i.1.stack i.2 =
      some ⟨.known .node, ⟨.known .send, some (.packet p), died⟩⟩)
    (hcrc : isValidCrc p = true) (hto : p.receiverAddr = n.addr) :
    ∃ accepted left, .app p.appPayload accepted left ∈ newEvents z n i := by
  have hstep : nodeStep z n i = (nodeHandleAppRequest z i.1 n p).2 := by
    have hsend : (handleNodeSend z i.1 n p).2 = _ := handleNodeSend_eq hcrc
    rw [if_pos hto] at hsend
    rw [← hsend]
    simp only [nodeStep, nodeHandleRequest, hreceive]
    rfl
  -- the link with which the message is handed over
  obtain ⟨l, front, hl, hlink⟩ : ∃ l front, l.trace = n.link.trace ++ front ∧
      (nodeHandleAppRequest z i.1 n p).2.link =
        (handToAppAndNotify z i.1 n l p.appPayload).2.2 := by
    by_cases hunicast : p.appPayload.reqType = .known .unicast
    · refine ⟨(n.link.notifyServer i.1 ⟨.known .gotMessage, p.appPayload.id⟩).2, _,
        Link.getConnAndSend_trace, ?_⟩
      simp only [nodeHandleAppRequest, hunicast, if_true]
    · refine ⟨n.link, [], (List.append_nil _).symm, ?_⟩
      simp only [nodeHandleAppRequest, hunicast, if_false]
  obtain ⟨left, htrace⟩ := trace_handToAppAndNotify z i.1 n l p.appPayload
  have hevents := trace_nodeStep z n i
  rw [hstep, hlink, htrace, hl, List.append_assoc] at hevents
  refine ⟨(handToAppAndNotify z i.1 n l p.appPayload).1, left, ?_⟩
  rw [← List.append_cancel_left hevents]
  exact List.mem_append_right _ List.mem_cons_self

/-- What the server is told was said by an app. -/
theorem vouches_of_told (h : .told notify ∈ newNotices z n i) :
    Vouches (newEvents z n i) notify := by
  have hreport : ∀ {a : AppPayload}, .told notify ∈ report a.id (accepts z i.1 n a) →
      (∀ notice ∈ report a.id (accepts z i.1 n a), notice ∈ newNotices z n i) →
      Vouches (newEvents z n i) notify := by
    intro a hmem hall
    obtain ⟨given, left, happ, hid⟩ := exists_app_of_handed (hall _ List.mem_cons_self)
    have heq : notify = ⟨.known (if accepts z i.1 n a then .gotMessage else .fail), a.id⟩ := by
      simpa [report] using hmem
    rw [heq]
    exact ⟨given, _, left, happ, hid, .inl rfl⟩
  obtain hsame | ⟨-, a, hnotices⟩ | ⟨p, died, hreceive, hcrc, hto, hunicast, hnotices⟩ :=
    notices_nodeStep z n i
  · rw [newNotices_eq (hsame.trans (List.append_nil _).symm)] at h
    cases h
  · have heq := newNotices_eq hnotices
    exact hreport (heq ▸ h) fun notice hmem => heq ▸ hmem
  · have heq := newNotices_eq hnotices
    have hmem := h
    rw [heq] at hmem
    obtain hfirst | hrest := List.mem_cons.mp hmem
    · cases hfirst
      obtain ⟨accepted, left, happ⟩ := exists_app_of_send (z := z) hreceive hcrc hto
      exact ⟨_, accepted, left, happ, rfl, .inr ⟨hunicast, rfl⟩⟩
    · exact hreport hrest fun notice hmem => heq ▸ List.mem_cons_of_mem _ hmem

/-- The server is told of what an app was given. -/
theorem exists_told_of_app {given left : AppPayload} {accepted : Bool}
    (h : .app given accepted left ∈ newEvents z n i) :
    ∃ notify, notify.appMsgId = given.id ∧ .told notify ∈ newNotices z n i := by
  have hmem := mem_newNotices h
  obtain hsame | ⟨-, a, hnotices⟩ | ⟨p, died, -, -, -, -, hnotices⟩ := notices_nodeStep z n i
  · rw [newNotices_eq (hsame.trans (List.append_nil _).symm)] at hmem
    cases hmem
  · rw [newNotices_eq hnotices] at hmem ⊢
    obtain ⟨hid, -⟩ : given.id = a.id ∧ accepted = accepts z i.1 n a := by
      simpa [report] using hmem
    exact ⟨⟨_, a.id⟩, hid.symm, List.mem_cons_of_mem _ List.mem_cons_self⟩
  · rw [newNotices_eq hnotices] at hmem ⊢
    obtain ⟨hid, -⟩ : given.id = p.appPayload.id ∧ accepted = accepts z i.1 n p.appPayload := by
      simpa [report] using hmem
    exact ⟨⟨_, p.appPayload.id⟩, hid.symm, List.mem_cons_self⟩

/-! ## What is on its way to the server -/

namespace Mesh

/-- The app of some node has said what the notification tells. -/
def Vouched (m : Mesh) (notify : Notify) : Prop := ∃ b, Vouches (m.node b).link.trace notify

/-- All that is on its way to the server was said by an app. -/
def Attested (m : Mesh) : Prop :=
  ∀ src, ∀ f ∈ m.wire src .server,
    ∃ notify buf, f.packet = (createNotify .node notify).sent buf ∧ m.Vouched notify

/-- A notification of the message is on its way to the server. -/
def Announced (k : UInt16) (m : Mesh) : Prop :=
  ∃ src, ∃ f ∈ m.wire src .server,
    ∃ notify buf, f.packet = (createNotify .node notify).sent buf ∧ notify.appMsgId = k

/-- The results that the server writes when a notification is delivered to it. -/
def tells (m : Mesh) : Call → List Told
  | .deliver src .server _ senv =>
    match m.wire src .server with
    | [] => []
    | f :: _ => m.server.tells ⟨0, senv, f.packet⟩
  | _ => []

/-- The results that are written over a run. -/
def answers (z : Zlib) : Mesh → List Call → List Told
  | _, [] => []
  | m, i :: is => m.tells i ++ answers z (m.call z i) is

end Mesh

variable {m m' : Mesh} {s : Service} {children : List Child} {src : Peer} {dst : UInt8}
  {f : Flight (List UInt8)} {fs : List (Flight (List UInt8))} {fd fd' : Int} {later : Nat}
  {told : List Told} {c : Mesh.Call} {cs : List Mesh.Call} {req : Request} {packet : NodePacket}
  {ids : List UInt16} {pids : UInt8 → Int32} {fds : UInt8 ↪ Int} {first : UInt16}

/-- A request of a client puts nothing on the connections to the server. -/
theorem wire_client (x : Peer) :
    (m.call z (.client req fd packet senv)).wire x .server = m.wire x .server := by
  simp only [Mesh.call, Mesh.emit]
  split
  · refine List.append_right_eq_self.mpr (List.filterMap_eq_nil_iff.mpr fun o ho => if_neg ?_)
    obtain ⟨e, -, heq⟩ := List.mem_filterMap.mp ho
    split at heq
    · obtain ⟨addr, -, rfl⟩ := Option.map_eq_some_iff.mp heq
      intro hserver
      cases hserver
    · cases heq
  · rfl

theorem server_client (hreq : req.CarriesMessage) :
    (m.call z (.client req fd packet senv)).server.clients =
      m.server.clients.setClient m.server.appMsgId fd := by
  obtain rfl | rfl | rfl := hreq <;> rfl

theorem call_deliver_nil {dst : Peer} (hwire : m.wire src dst = []) :
    m.call z (.deliver src dst env senv) = m := by
  cases dst <;> simp only [Mesh.call, Mesh.step, hwire]

theorem node_notify : (m.call z (.deliver src .server env senv)).node = m.node := by
  cases hwire : m.wire src .server <;> simp only [Mesh.call, Mesh.step, hwire]

theorem wire_notify : (m.call z (.deliver src .server env senv)).wire =
    Mesh.pop src .server m.wire := by
  cases hwire : m.wire src .server with
  | cons f fs => simp only [Mesh.call, Mesh.step, hwire]
  | nil =>
    funext x y
    simp only [Mesh.call, Mesh.step, hwire, Mesh.pop]
    split
    · rename_i h
      rw [h.1, h.2, hwire]
      rfl
    · rfl

theorem server_notify (hwire : m.wire src .server = f :: fs) :
    (m.call z (.deliver src .server env senv)).server =
      m.server.step ⟨0, senv, f.packet⟩ := by
  simp only [Mesh.call, Mesh.step, hwire, Server.step]

section
variable (hwire : m.wire src (.node dst) = f :: fs)
include hwire

theorem node_deliver :
    (m.call z (.deliver src (.node dst) env senv)).node =
      Function.update m.node dst (nodeStep z (m.node dst) (env, f.packet)) := by
  simp only [Mesh.call, Mesh.step, hwire]

theorem server_deliver :
    (m.call z (.deliver src (.node dst) env senv)).server = m.server := by
  simp only [Mesh.call, Mesh.step, hwire]

/-- A node that is delivered a frame writes its notifications to the server. -/
theorem wire_deliver (x : Peer) :
    (m.call z (.deliver src (.node dst) env senv)).wire x .server =
      if x = .node dst then
        m.wire x .server ++ (sentFrames (newEvents z (m.node dst) (env, f.packet))).filterMap
          fun o => if o.1 = .server then some ⟨o.2, f.hops + 1⟩ else none
      else m.wire x .server := by
  have hpop : Mesh.pop src (.node dst) m.wire x .server = m.wire x .server :=
    if_neg fun h => by cases h.2
  simp only [Mesh.call, Mesh.step, hwire, Mesh.emit, hpop]
  rfl

theorem trace_deliver (b : UInt8) :
    ((m.call z (.deliver src (.node dst) env senv)).node b).link.trace =
      (m.node b).link.trace ++
        if b = dst then newEvents z (m.node dst) (env, f.packet) else [] := by
  rw [node_deliver hwire]
  by_cases hb : b = dst
  · subst hb
    rw [Function.update_self, if_pos rfl, trace_nodeStep]
  · rw [Function.update_of_ne hb, if_neg hb, List.append_nil]

end

/-! ## Step by step -/

/-- What a node writes to the server it was told by an app. -/
theorem vouches_of_sent {bytes : List UInt8}
    (h : (Peer.server, bytes) ∈ sentFrames (newEvents z n i)) :
    ∃ notify buf, bytes = (createNotify .node notify).sent buf ∧
      Vouches (newEvents z n i) notify := by
  obtain ⟨port, hport, hsend⟩ := mem_sentFrames h
  rw [eq_serverPort hport] at hsend
  obtain ⟨notify, buf, hbytes, htold⟩ := told_of_send hsend
  exact ⟨notify, buf, hbytes, vouches_of_told htold⟩

/-- What has happened at a node has happened. -/
theorem trace_call (c : Mesh.Call) (b : UInt8) :
    (m.node b).link.trace ⊆ ((m.call z c).node b).link.trace := by
  cases c with
  | client req fd packet senv => exact List.Subset.refl _
  | deliver src dst env senv =>
    cases hwire : m.wire src dst with
    | nil => rw [call_deliver_nil hwire]; exact List.Subset.refl _
    | cons f fs =>
      cases dst with
      | server => rw [node_notify]; exact List.Subset.refl _
      | node dst =>
        rw [trace_deliver hwire]
        exact List.subset_append_left _ _

theorem vouched_call (h : m.Vouched notify) (c : Mesh.Call) : (m.call z c).Vouched notify := by
  obtain ⟨b, hb⟩ := h
  exact ⟨b, hb.mono (trace_call c b)⟩

theorem attested_call (h : m.Attested) (c : Mesh.Call) : (m.call z c).Attested := by
  have hold : ∀ x, ∀ g ∈ m.wire x .server, ∃ notify buf,
      g.packet = (createNotify .node notify).sent buf ∧ (m.call z c).Vouched notify := by
    intro x g hg
    obtain ⟨notify, buf, hpacket, hvouched⟩ := h x g hg
    exact ⟨notify, buf, hpacket, vouched_call hvouched c⟩
  intro x g hg
  cases c with
  | client req fd packet senv =>
    rw [wire_client] at hg
    exact hold x g hg
  | deliver src dst env senv =>
    cases hwire : m.wire src dst with
    | nil =>
      rw [call_deliver_nil hwire] at hg
      exact hold x g hg
    | cons f fs =>
      cases dst with
      | server =>
        rw [wire_notify] at hg
        exact hold x g (mem_of_mem_meshPop hg)
      | node dst =>
        rw [wire_deliver hwire] at hg
        split at hg
        · obtain hg | hg := List.mem_append.mp hg
          · exact hold x g hg
          · obtain ⟨⟨peer, bytes⟩, ho, heq⟩ := List.mem_filterMap.mp hg
            split at heq
            · rename_i hserver
              cases heq
              cases hserver
              obtain ⟨notify, buf, hbytes, hvouches⟩ := vouches_of_sent ho
              refine ⟨notify, buf, hbytes, dst, ?_⟩
              rw [trace_deliver hwire, if_pos rfl]
              exact hvouches.mono (List.subset_append_right _ _)
            · cases heq
        · exact hold x g hg

theorem send_posts {a : UInt8} {out : List (UInt8 × Letter)} (h : Posts a es out) {port : UInt16}
    {bytes : List UInt8} {ok : Bool} (hmem : .send port bytes ok ∈ es) : ok = true := by
  induction h with
  | nil => cases hmem
  | app _ _ _ _ ih =>
    obtain heq | hmem := List.mem_cons.mp hmem
    · cases heq
    · exact ih hmem
  | notify _ _ _ ih | letter _ _ _ ih =>
    obtain heq | hmem := List.mem_cons.mp hmem
    · cases heq
      rfl
    · exact ih hmem

/-- What an app was given is announced to the server at once. -/
theorem announced_of_app (hoffers : Offers children m s) (hnet : env.net.Healthy)
    (hwire : m.wire src (.node dst) = f :: fs) {given left : AppPayload} {accepted : Bool}
    (happ : .app given accepted left ∈ newEvents z (m.node dst) (env, f.packet)) :
    (m.call z (.deliver src (.node dst) env senv)).Announced given.id := by
  obtain ⟨notify, hid, htold⟩ := exists_told_of_app happ
  have hsend : ∃ bytes ok, .send serverPort bytes ok ∈ newEvents z (m.node dst) (env, f.packet) ∧
      ∃ buf, bytes = (createNotify .node notify).sent buf := by
    obtain ⟨e, he, heq⟩ := List.mem_filterMap.mp htold
    unfold Event.notice? at heq
    split at heq
    · cases heq
    · rename_i port bytes ok
      split at heq
      · rename_i hport
        subst hport
        obtain ⟨notify', buf, rfl, -⟩ := told_of_send he
        rw [receive_notify] at heq
        cases heq
        exact ⟨_, ok, he, buf, rfl⟩
      · cases heq
    · cases heq
  obtain ⟨bytes, ok, hmem, buf, hbytes⟩ := hsend
  have hok : ok = true := by
    obtain ⟨_, _, es, _, _, hdoes, hposts, _, _⟩ := hoffers.serves (z := z) hnet hwire
    rw [newEvents, hdoes.trace, List.drop_left] at hmem
    exact send_posts hposts hmem
  subst hok
  refine ⟨.node dst, ⟨bytes, f.hops + 1⟩, ?_, notify, buf, hbytes, hid⟩
  rw [wire_deliver hwire, if_pos rfl]
  refine List.mem_append_right _ (List.mem_filterMap.mpr ⟨(.server, bytes), ?_, if_pos rfl⟩)
  exact List.mem_filterMap.mpr ⟨_, hmem, rfl⟩

/-! ## The client of a message -/

/-- The client that has asked for the message `k` on `fd` was told what an app has said, and waits
for no more; or nothing yet, and nothing was said or it is on its way. Since then `later` messages
were asked for. -/
structure Answering (k : UInt16) (fd : Int) (later : Nat) (m : Mesh) (told : List Told) : Prop where
  attested : m.Attested
  owing : Owing k fd later m.server.clients told
  vouched : ∀ r ∈ told, ∃ type : NotifyType, m.Vouched ⟨.known type, k⟩ ∧
    r = ⟨k, fd, [type.result.toByte]⟩
  announced : later < maxClient → (∃ b, 0 < (m.node b).link.appCalls k) →
    told ≠ [] ∨ m.Announced k

/-- The apps that are given a message now are announced; the others had it before. -/
theorem given_call (hoffers : Offers children m s) (hc : c.Healthy)
    (hgiven : ∃ b, 0 < ((m.call z c).node b).link.appCalls k) :
    (∃ b, 0 < (m.node b).link.appCalls k) ∨ (m.call z c).Announced k := by
  cases c with
  | client req fd packet senv => exact .inl hgiven
  | deliver src dst env senv =>
    cases hwire : m.wire src dst with
    | nil =>
      rw [call_deliver_nil hwire] at hgiven
      exact .inl hgiven
    | cons f fs =>
      cases dst with
      | server =>
        rw [node_notify] at hgiven
        exact .inl hgiven
      | node dst =>
        obtain ⟨b, hb⟩ := hgiven
        obtain ⟨given, accepted, left, happ, hid⟩ := appCalls_pos.mp hb
        rw [trace_deliver hwire, List.mem_append] at happ
        obtain hold | hnew := happ
        · exact .inl ⟨b, appCalls_pos.mpr ⟨given, accepted, left, hold, hid⟩⟩
        · split at hnew
          · exact .inr (hid ▸ announced_of_app hoffers hc hwire hnew)
          · cases hnew

/-- What is on its way to the server stays there until it is delivered. -/
theorem announced_call_of_not (h : m.Announced k) (hc : ∀ x, ¬ c.Delivers x .server) :
    (m.call z c).Announced k := by
  obtain ⟨x, f, hf, hnotify⟩ := h
  obtain ⟨ms, heq⟩ := wire_call_of_not (z := z) (m := m) (hc x)
  exact ⟨x, f, heq ▸ List.mem_append_left _ hf, hnotify⟩

theorem Answering.quiet (h : Answering k fd later m told) (hoffers : Offers children m s)
    (hc : c.Healthy) (hnot : ∀ x, ¬ c.Delivers x .server) {later' : Nat} (hle : later ≤ later')
    (howing : Owing k fd later' (m.call z c).server.clients told) :
    Answering k fd later' (m.call z c) told where
  attested := attested_call h.attested c
  owing := howing
  vouched r hr := by
    obtain ⟨type, hvouched, heq⟩ := h.vouched r hr
    exact ⟨type, vouched_call hvouched c, heq⟩
  announced hlater hgiven := by
    obtain hold | hnew := given_call hoffers hc hgiven
    · exact (h.announced (by omega) hold).imp_right fun hann => announced_call_of_not hann hnot
    · exact .inr hnew

/-- The notification that the server is delivered next. -/
theorem Answering.front (h : Answering k fd later m told) (hfd : 0 < fd)
    (hwire : m.wire src .server = f :: fs) (env : Env) (senv : ServerEnv) :
    ∃ type id, Arrived.tableEvent ⟨0, senv, f.packet⟩ = .notifies ⟨.known type, id⟩ ∧
      m.Vouched ⟨.known type, id⟩ ∧
      Owing k fd later (m.server.step ⟨0, senv, f.packet⟩).clients
        (told ++ (m.tells (.deliver src .server env senv)).filter fun r => r.id == k) ∧
      (∀ r ∈ (m.tells (.deliver src .server env senv)).filter fun r => r.id == k,
        id = k ∧ r = ⟨k, fd, [type.result.toByte]⟩) ∧
      (id = k → later < maxClient →
        told ++ (m.tells (.deliver src .server env senv)).filter (fun r => r.id == k) ≠ []) := by
  obtain ⟨⟨type, id⟩, buf, hpacket, hvouched⟩ := h.attested src f (hwire ▸ List.mem_cons_self)
  obtain ⟨type, rfl⟩ : ∃ t, type = .known t := by
    obtain ⟨b, hb⟩ := hvouched
    exact hb.known
  have hx : Arrived.tableEvent ⟨0, senv, f.packet⟩ = .notifies ⟨.known type, id⟩ := by
    rw [hpacket, Ledger.tableEvent_notify]
  have htells : m.tells (.deliver src .server env senv) =
      m.server.tells ⟨0, senv, f.packet⟩ := by
    simp only [Mesh.tells, hwire]
  rw [htells]
  exact ⟨type, id, hx, hvouched, h.owing.notified hfd hx⟩

theorem id_of_tableEvent {buf : Nat → UInt8} {id : UInt16} {type : NotifyType}
    (hx : Arrived.tableEvent ⟨0, senv, f.packet⟩ = .notifies ⟨.known type, id⟩)
    (hpacket : f.packet = (createNotify .node notify).sent buf) : id = notify.appMsgId := by
  rw [hpacket, Ledger.tableEvent_notify] at hx
  cases hx
  rfl

/-- The first notification of the message is passed on to its client. -/
theorem Answering.ne_nil (h : Answering k fd later m told) (env : Env) (senv : ServerEnv)
    (hfd : 0 < fd) (hlater : later < maxClient) (hwire : m.wire src .server = f :: fs)
    {buf : Nat → UInt8} (hpacket : f.packet = (createNotify .node notify).sent buf)
    (hid : notify.appMsgId = k) :
    told ++ (m.tells (.deliver src .server env senv)).filter (fun r => r.id == k) ≠ [] := by
  obtain ⟨type, id, hx, -, -, -, hsome⟩ := h.front hfd hwire env senv
  exact hsome ((id_of_tableEvent hx hpacket).trans hid) hlater

/-- A notification is delivered to the server. -/
theorem Answering.notified (h : Answering k fd later m told) (hfd : 0 < fd) :
    Answering k fd later (m.call z (.deliver src .server env senv))
      (told ++ (m.tells (.deliver src .server env senv)).filter fun r => r.id == k) := by
  cases hwire : m.wire src .server with
  | nil =>
    rw [call_deliver_nil hwire]
    simpa only [Mesh.tells, hwire, List.filter_nil, List.append_nil] using h
  | cons f fs =>
    obtain ⟨type, id, -, hvouched, howing, hnew, -⟩ := h.front hfd hwire env senv
    refine ⟨attested_call h.attested _, server_notify hwire ▸ howing, fun r hr => ?_,
      fun hlater hgiven => ?_⟩
    · obtain hr | hr := List.mem_append.mp hr
      · obtain ⟨type, hvouched, heq⟩ := h.vouched r hr
        exact ⟨type, vouched_call hvouched _, heq⟩
      · obtain ⟨rfl, rfl⟩ := hnew r hr
        exact ⟨type, vouched_call hvouched _, rfl⟩
    · rw [node_notify] at hgiven
      obtain htold | ⟨x, g, hg, notify, buf, hnotify, hid⟩ := h.announced hlater hgiven
      · exact .inl fun heq => htold (List.append_eq_nil_iff.mp heq).1
      · by_cases hfirst : x = src ∧ g = f
        · obtain ⟨rfl, rfl⟩ := hfirst
          exact .inl (h.ne_nil env senv hfd hlater hwire hnotify hid)
        · refine .inr ⟨x, g, ?_, notify, buf, hnotify, hid⟩
          rw [wire_notify, Mesh.pop]
          split
          · rename_i hsrc
            rw [hsrc.1, hwire] at hg ⊢
            exact (List.mem_cons.mp hg).resolve_left fun heq => hfirst ⟨hsrc.1, heq⟩
          · exact hg

/-- What the server still owes the client of a message, over a step in which it is not asked for
again. -/
theorem answering_call (hfd : 0 < fd) (hc : m.Listed ids k c)
    (hoffers : Offers children m s) (h : Answering k fd later m told) :
    Answering k fd (later + asks [c]) (m.call z c)
      (told ++ (m.tells c).filter fun r => r.id == k) := by
  cases c with
  | client req fd' packet senv =>
    have hserver : (m.call z (.client req fd' packet senv)).server.clients = _ :=
      server_client hc.1.1
    have howing : Owing k fd (later + 1) (m.server.clients.setClient m.server.appMsgId fd') told :=
      h.owing.setClient (hc.2 rfl).2.symm
    rw [← hserver] at howing
    have hquiet := h.quiet (z := z) hoffers hc.1 (fun x => id) (Nat.le_succ later) howing
    have hask : asks [Mesh.Call.client req fd' packet senv] = 1 := rfl
    rw [hask]
    simpa only [Mesh.tells, List.filter_nil, List.append_nil] using hquiet
  | deliver src dst env senv =>
    cases dst with
    | server => exact h.notified hfd
    | node dst =>
      have hserver : (m.call z (.deliver src (.node dst) env senv)).server = m.server := by
        cases hwire : m.wire src (.node dst) with
        | nil => rw [call_deliver_nil hwire]
        | cons f fs => exact server_deliver hwire
      have howing := h.owing
      rw [← hserver] at howing
      have hquiet := h.quiet (z := z) hoffers hc.1 (fun x hx => by cases hx.2) (Nat.le_refl later)
        howing
      have hask : asks [Mesh.Call.deliver src (.node dst) env senv] = 0 := rfl
      rw [hask, Nat.add_zero]
      simpa only [Mesh.tells, List.filter_nil, List.append_nil] using hquiet

theorem answering_run (hfd : 0 < fd) (hcs : Steps (Mesh.call z) (Mesh.Listed ids k) m cs)
    (hoffers : Offers (Mesh.start pids fds first).server.children m s)
    (h : Answering k fd later m told) :
    Answering k fd (later + asks cs) (run (Mesh.call z) m cs)
      (told ++ (m.answers z cs).filter fun r => r.id == k) := by
  induction cs generalizing m s later told with
  | nil => simpa [Mesh.answers, asks] using h
  | cons c cs ih =>
    have hnext := offers_call (z := z) hoffers hcs.1.1
    have hrest := ih hcs.2 hnext (answering_call (z := z) hfd hcs.1 hoffers h)
    rw [asks_cons, ← Nat.add_assoc, Mesh.answers, List.filter_append, ← List.append_assoc]
    exact hrest

/-- Until the numbers wrap, the slots hold numbers of messages that were asked for. -/
structure Registered (children : List Child) (first : UInt16) (n : Nat) (m : Mesh) : Prop where
  issues : m.Issues children first n
  attested : m.Attested
  numbered : m.server.clients.Numbered (issued first n)

theorem registered_start (pids : UInt8 → Int32) (fds : UInt8 ↪ Int) (first : UInt16) :
    Registered (Mesh.start pids fds first).server.children first 0 (Mesh.start pids fds first) where
  issues := issues_start pids fds first
  attested _ := nofun
  numbered := Clients.numbered_init

theorem registered_call {n : Nat} (hc : c.Healthy)
    (h : Registered (Mesh.start pids fds first).server.children first n m) :
    Registered (Mesh.start pids fds first).server.children first (n + asks [c]) (m.call z c) := by
  refine ⟨issues_call hc h.issues, attested_call h.attested c, ?_⟩
  cases c with
  | client req fd packet senv =>
    obtain ⟨s, hoffers, hissued⟩ := h.issues
    rw [server_client hc.1, hoffers.nextId, hissued.nextId]
    exact h.numbered.setClient (issued_mono (Nat.le_succ n))
      (mem_issued.mpr ⟨n, Nat.lt_succ_self n, rfl⟩)
  | deliver src dst env senv =>
    have hask : asks [Mesh.Call.deliver src dst env senv] = 0 := rfl
    rw [hask, Nat.add_zero]
    cases hwire : m.wire src dst with
    | nil =>
      rw [call_deliver_nil hwire]
      exact h.numbered
    | cons f fs =>
      cases dst with
      | node dst =>
        rw [server_deliver hwire]
        exact h.numbered
      | server =>
        obtain ⟨notify, buf, hpacket, -⟩ := h.attested src f (hwire ▸ List.mem_cons_self)
        have htable : (m.server.step ⟨0, senv, f.packet⟩).clients = _ :=
          congrArg Prod.fst (step_table m.server ⟨0, senv, f.packet⟩)
        rw [server_notify hwire, htable, hpacket, Ledger.tableEvent_notify]
        exact h.numbered.getClientFdById

theorem registered_run {n : Nat} (hcs : ∀ c ∈ cs, c.Healthy)
    (h : Registered (Mesh.start pids fds first).server.children first n m) :
    Registered (Mesh.start pids fds first).server.children first (n + asks cs)
      (run (Mesh.call z) m cs) := by
  induction cs generalizing m n with
  | nil => exact h
  | cons c cs ih =>
    obtain ⟨hc, hcs⟩ := List.forall_mem_cons.mp hcs
    rw [asks_cons, ← Nat.add_assoc]
    exact ih hcs (registered_call hc h)

/-- Of a message that was just asked for the client was told nothing. -/
theorem answering_asked {n : Nat} (hn : n < 65536)
    (hc : (Mesh.Call.client req fd packet senv).Healthy)
    (h : Registered (Mesh.start pids fds first).server.children first n m) :
    Answering (first + UInt16.ofNat n) fd 0 (m.call z (.client req fd packet senv)) [] := by
  obtain ⟨s, hoffers, hissued⟩ := h.issues
  have hnew : first + UInt16.ofNat n ∉ issued first n := not_mem_issued hn
  refine ⟨attested_call h.attested _, ?_, nofun, fun _ hgiven => ?_⟩
  · rw [server_client hc.1, hoffers.nextId, hissued.nextId]
    exact owing_setClient_self h.numbered hnew
  · obtain ⟨b, hb⟩ := hgiven
    have hcount : 0 < (m.node b).link.appCalls (first + UInt16.ofNat n) := hb
    rw [hoffers.appCalls, List.count_pos_iff] at hcount
    exact absurd (hissued.handled b _ hcount) hnew

section
variable {before after : List Mesh.Call}

/-- What the client of a message was told over any run after it has asked for it. -/
theorem answering_after (z : Zlib) (pids : UInt8 → Int32) (fds : UInt8 ↪ Int) (first : UInt16)
    (hbefore : ∀ c ∈ before, c.Healthy)
    (hask : (Mesh.Call.client req fd packet senv).Healthy) (hafter : ∀ c ∈ after, c.Healthy)
    (hfew : asks before + asks after < 65536) (hfd : 0 < fd) :
    let asked := (run (Mesh.call z) (Mesh.start pids fds first) before).call z
      (.client req fd packet senv)
    let k := first + UInt16.ofNat (asks before)
    Answering k fd (asks after) (run (Mesh.call z) asked after)
      ((asked.answers z after).filter fun r => r.id == k) := by
  intro asked k
  have hregistered := registered_run (z := z) hbefore (registered_start pids fds first)
  rw [Nat.zero_add] at hregistered
  have hasked := answering_asked (z := z) (by omega) hask hregistered
  obtain ⟨s, hoffers, hissued⟩ := issues_call (z := z) hask hregistered.issues
  have hlisted := steps_listed (z := z) (j := asks before + 1) (N := 65536) hafter
    ⟨s, hoffers, hissued⟩ (Nat.lt_succ_self _) (by omega) (Nat.le_refl _)
  have hrun := answering_run hfd hlisted hoffers hasked
  rwa [Nat.zero_add] at hrun

theorem Answering.told_cases (h : Answering k fd later m told) :
    told = [] ∨ ∃ type : NotifyType, told = [⟨k, fd, [type.result.toByte]⟩] ∧
      m.Vouched ⟨.known type, k⟩ := by
  obtain ⟨-, howing, hvouched, -⟩ := h
  cases howing with
  | waiting => exact .inl rfl
  | told res =>
    obtain ⟨type, htype, heq⟩ := hvouched _ List.mem_cons_self
    exact .inr ⟨type, by rw [heq], htype⟩

namespace Mesh

/-- A connection to the server delivers. -/
def Call.report (src : Peer) : Call := .deliver src .server (.zeroed .ideal) .quiet

end Mesh

theorem answers_append (m : Mesh) (cs cs' : List Mesh.Call) :
    m.answers z (cs ++ cs') = m.answers z cs ++ (run (Mesh.call z) m cs).answers z cs' := by
  induction cs generalizing m with
  | nil => rfl
  | cons c cs ih =>
    rw [List.cons_append, Mesh.answers, ih, Mesh.answers, run_cons, List.append_assoc]

variable {calls : Nat → Mesh.Call}

/-- If every connection goes on delivering, what an app was given is told to the client. -/
theorem exists_told (hbefore : ∀ c ∈ before, c.Healthy)
    (hask : (Mesh.Call.client req fd packet senv).Healthy) (hcalls : ∀ n, (calls n).Healthy)
    (hfair : ∀ src dst, Recurs calls (Mesh.Call.Delivers src dst))
    (hfew : ∀ n, asks before + asks ((List.range n).map calls) < 65536)
    (hlater : ∀ n, asks ((List.range n).map calls) < maxClient) (hfd : 0 < fd) :
    let asked := (run (Mesh.call z) (Mesh.start pids fds first) before).call z
      (.client req fd packet senv)
    let k := first + UInt16.ofNat (asks before)
    (∃ n b, 0 < ((endless (Mesh.call z) asked calls n).node b).link.appCalls k) →
      ∃ n₀, ∃ type : NotifyType, ∀ n ≥ n₀,
        (asked.answers z ((List.range n).map calls)).filter (fun r => r.id == k) =
          [⟨k, fd, [type.result.toByte]⟩] ∧
        (endless (Mesh.call z) asked calls n).Vouched ⟨.known type, k⟩ := by
  rintro asked k ⟨n, hgiven⟩
  have hanswering : ∀ n, Answering k fd (asks ((List.range n).map calls))
      (endless (Mesh.call z) asked calls n)
      ((asked.answers z ((List.range n).map calls)).filter fun r => r.id == k) := by
    intro n
    rw [endless_eq_run]
    refine answering_after z pids fds first hbefore hask (fun c hc => ?_) (hfew n) hfd
    obtain ⟨j, -, rfl⟩ := List.mem_map.mp hc
    exact hcalls j
  have htold : ∀ n j, ∃ more,
      (asked.answers z ((List.range (n + j)).map calls)).filter (fun r => r.id == k) =
        (asked.answers z ((List.range n).map calls)).filter (fun r => r.id == k) ++ more := by
    intro n j
    rw [List.range_add, List.map_append, answers_append, List.filter_append]
    exact ⟨_, rfl⟩
  obtain ⟨n₀, hne⟩ : ∃ n₀,
      (asked.answers z ((List.range n₀).map calls)).filter (fun r => r.id == k) ≠ [] := by
    obtain hne | ⟨x, f, hf, notify, buf, hpacket, hid⟩ :=
      (hanswering n).announced (hlater n) hgiven
    · exact ⟨n, hne⟩
    · have hother : ∀ (m : Mesh) c, ¬ c.Delivers x .server →
          ∃ fs, (m.call z c).wire x .server = m.wire x .server ++ fs :=
        fun _ _ hi => wire_call_of_not hi
      obtain ⟨j, hj, fs, hfs⟩ := exists_served (fun m : Mesh => m.wire x .server) hother
        (hfair x .server) (fun _ _ hi => wire_call hi) hf
      refine ⟨n + j + 1, ?_⟩
      rw [List.range_succ, List.map_append, List.map_singleton, answers_append, List.filter_append,
        ← endless_eq_run]
      generalize calls (n + j) = c at hj
      cases c with
      | client req fd packet senv => exact hj.elim
      | deliver src dst env senv =>
        obtain ⟨rfl, rfl⟩ := hj
        have hlast := (hanswering (n + j)).ne_nil env senv hfd (hlater _) hfs hpacket hid
        simpa only [Mesh.answers, List.append_nil] using hlast
  obtain ⟨type, hfirst, -⟩ := (hanswering n₀).told_cases.resolve_left hne
  refine ⟨n₀, type, fun n hn => ?_⟩
  obtain ⟨j, rfl⟩ := Nat.exists_eq_add_of_le hn
  obtain ⟨more, hmore⟩ := htold n₀ j
  obtain hnone | ⟨type', hone, hvouched⟩ := (hanswering (n₀ + j)).told_cases
  · rw [hfirst, hnone] at hmore
    cases hmore
  · rw [hfirst, hone] at hmore
    have hbytes := congrArg Told.bytes (List.cons.inj hmore).1
    have hsame := toByte_result_inj (List.cons.inj hbytes).1
    exact ⟨hsame ▸ hone, hsame ▸ hvouched⟩

namespace Mesh

end Mesh

end

end MeshNet
