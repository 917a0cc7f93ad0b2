import MeshNet.Mesh.Told
import MeshNet.Mesh.Typed
import MeshNet.Server.Results

/-!
# What the client program says

The client ends with the first byte that comes back on its connection. As long as nobody else waits
on this descriptor of the server, the byte is a result of its own message, which an app has given,
whatever fails on the way.
-/

namespace MeshNet
open Library
open Mesh (asks)

/-! ## The descriptor of one message -/

namespace Clients

/-- No slot holds the descriptor for another message. -/
def Reserved (t : Clients) (k : UInt16) (fd : Int) : Prop :=
  ∀ c ∈ t.clients, c.fd = fd → c.appId = k

variable {t : Clients} {k id : UInt16} {fd fd' : Int}

theorem Reserved.setClient (h : t.Reserved k fd) (hset : fd' = fd → id = k) :
    (t.setClient id fd').Reserved k fd := by
  intro c hc hcfd
  obtain hold | rfl := List.mem_or_eq_of_mem_set hc
  · exact h c hold hcfd
  · exact hset hcfd

theorem Reserved.getClientFdById (h : t.Reserved k fd) (hfd : 0 < fd) :
    (t.getClientFdById id).2.Reserved k fd := by
  intro c hc hcfd
  obtain ⟨i, hi⟩ := List.getElem?_of_mem hc
  have hold := within_getClientFdById.slots i c hi (by omega)
  exact h c (List.mem_of_getElem? hold) hcfd

end Clients

namespace Mesh

/-- Since the message `k` was asked for on the descriptor, when the server had left the trace
`since`, all that was written to it is results of this message. -/
structure Heeds (k : UInt16) (fd : Int) (since : ServerTrace) (m : Mesh) : Prop where
  attested : m.Attested
  children : ∀ c ∈ m.server.children, c.writeFd ≠ fd
  reserved : m.server.clients.Reserved k fd
  results : ∃ es, m.server.trace = since ++ es ∧ ∀ bytes ∈ ServerTrace.writtenTo fd es,
    ∃ type : NotifyType, bytes = [type.result.toByte] ∧ m.Vouched ⟨.known type, k⟩

end Mesh

variable {z : Zlib} {m : Mesh} {k id : UInt16} {fd fd' : Int} {since : ServerTrace} {req : Request}
  {packet : NodePacket} {env : Env} {senv : ServerEnv} {src : Peer} {c : Mesh.Call}
  {cs : List Mesh.Call} {children : List Child} {bytes : List UInt8}

/-! ## What the server writes to it -/

theorem writtenTo_sendToNodes (h : ∀ c ∈ children, c.writeFd ≠ fd) (addr : UInt8)
    (tr : ServerTrace) : ∃ es, (Server.sendToNodes senv addr bytes tr children).2 = tr ++ es ∧
      ServerTrace.writtenTo fd es = [] := by
  induction children generalizing tr with
  | nil => exact ⟨[], (List.append_nil _).symm, rfl⟩
  | cons child rest ih =>
    obtain ⟨hchild, hrest⟩ := List.forall_mem_cons.mp h
    have hone : ∀ ok, ServerTrace.writtenTo fd [.write child.writeFd bytes ok] = [] :=
      fun ok => if_neg fun heq => hchild heq.1
    rw [Server.sendToNodes]
    dsimp only
    split_ifs
    · exact ⟨_, rfl, hone _⟩
    · obtain ⟨es, htrace, hes⟩ := ih hrest (Server.ioWriteAll senv tr child.writeFd bytes).2
      refine ⟨_ :: es, htrace.trans (List.append_assoc ..), ?_⟩
      rw [← List.singleton_append, Server.writtenTo_append, hone, hes, List.append_nil]
    · exact ih hrest tr

/-- The request of another client writes to nodes. -/
theorem writtenTo_client (h : ∀ c ∈ m.server.children, c.writeFd ≠ fd)
    (hreq : req.CarriesMessage) :
    ∃ es, (m.call z (.client req fd' packet senv)).server.trace = m.server.trace ++ es ∧
      ServerTrace.writtenTo fd es = [] := by
  obtain rfl | rfl | rfl := hreq <;> exact writtenTo_sendToNodes h _ _

theorem step_of_notify (s : Server) (notify : Notify) (buf : Nat → UInt8) :
    s.step ⟨fd', senv, (createNotify .node notify).sent buf⟩ =
      { s with
        clients := (s.clients.getClientFdById notify.appMsgId).2
        trace := (Server.handleNotify senv s.trace
          (s.clients.getClientFdById notify.appMsgId).1 notify).2 } := by
  simp only [Server.step, Server.handleRequest, receive_notify, Server.listenerHandle,
    Server.handleNodeRequest]

/-- What is delivered to the server is what an app has said. -/
theorem Mesh.Attested.notify (h : m.Attested) {f : Flight (List UInt8)}
    {fs : List (Flight (List UInt8))} (hwire : m.wire src .server = f :: fs) :
    ∃ (type : NotifyType) (id : UInt16) (buf : Nat → UInt8),
      f.packet = (createNotify .node ⟨.known type, id⟩).sent buf ∧
        m.Vouched ⟨.known type, id⟩ := by
  obtain ⟨⟨type, id⟩, buf, hpacket, b, hb⟩ := h src f (hwire ▸ List.mem_cons_self)
  obtain ⟨type, rfl⟩ := hb.known
  exact ⟨type, id, buf, hpacket, b, hb⟩

theorem children_call (hc : c.Meant) (h : m.Attested) :
    (m.call z c).server.children = m.server.children := by
  cases c with
  | client req fd packet senv => obtain ⟨rfl | rfl | rfl, -⟩ := hc <;> rfl
  | deliver src dst env senv =>
    cases hwire : m.wire src dst with
    | nil => rw [call_deliver_nil hwire]
    | cons f fs =>
      cases dst with
      | node dst => rw [server_deliver hwire]
      | server =>
        obtain ⟨type, id, buf, hpacket, -⟩ := h.notify hwire
        rw [server_notify hwire, hpacket, step_of_notify]

/-- What was written before is still results of the message. -/
theorem Mesh.Heeds.grow (h : m.Heeds k fd since) (hc : c.Meant)
    (hreserved : (m.call z c).server.clients.Reserved k fd)
    (htrace : ∃ es, (m.call z c).server.trace = m.server.trace ++ es ∧
      ∀ bytes ∈ ServerTrace.writtenTo fd es, ∃ type : NotifyType,
        bytes = [type.result.toByte] ∧ m.Vouched ⟨.known type, k⟩) :
    (m.call z c).Heeds k fd since where
  attested := attested_call h.attested c
  children := children_call hc h.attested ▸ h.children
  reserved := hreserved
  results := by
    obtain ⟨es, hes, hold⟩ := h.results
    obtain ⟨es', hes', hnew⟩ := htrace
    refine ⟨es ++ es', by rw [hes', hes, List.append_assoc], fun bytes hbytes => ?_⟩
    rw [Server.writtenTo_append] at hbytes
    have hresult : ∃ type : NotifyType, bytes = [type.result.toByte] ∧
        m.Vouched ⟨.known type, k⟩ := (List.mem_append.mp hbytes).elim (hold bytes) (hnew bytes)
    obtain ⟨type, heq, hvouched⟩ := hresult
    exact ⟨type, heq, vouched_call hvouched c⟩

/-- A client asks on another descriptor, or for this message. -/
theorem Mesh.Heeds.client (h : m.Heeds k fd since)
    (hc : (Mesh.Call.client req fd' packet senv).Meant)
    (hset : fd' = fd → m.server.appMsgId = k) :
    (m.call z (.client req fd' packet senv)).Heeds k fd since := by
  have hserver : (m.call z (.client req fd' packet senv)).server.clients =
      m.server.clients.setClient m.server.appMsgId fd' := server_client hc.1
  have htrace : ∃ es, (m.call z (.client req fd' packet senv)).server.trace =
      m.server.trace ++ es ∧ ServerTrace.writtenTo fd es = [] :=
    writtenTo_client h.children hc.1
  obtain ⟨es, htrace, hnone⟩ := htrace
  refine h.grow hc ?_ ⟨es, htrace, by simp [hnone]⟩
  rw [hserver]
  exact h.reserved.setClient hset

variable {w : Client.Surroundings} {argv : List CString} {p : NodePacket} {text : CString}
  {pids : UInt8 → Int32} {fds : UInt8 ↪ Int} {before after : List Mesh.Call}

/-- The first byte that comes back is a result that an app has given. -/
theorem Mesh.Heeds.statusOf (h : m.Heeds k fd since) {answer : List UInt8}
    (hread : answer <+: (ServerTrace.writtenTo fd (m.server.trace.drop since.length)).flatten) :
    ∃ status : RequestResult, Client.statusOf answer = status.toByte ∧
      (status = .unknown ∨ ∃ type : NotifyType, status = type.result ∧
        m.Vouched ⟨.known type, k⟩) := by
  cases answer with
  | nil => exact ⟨.unknown, rfl, .inl rfl⟩
  | cons b rest =>
    obtain ⟨es, htrace, hes⟩ := h.results
    rw [htrace, List.drop_left] at hread
    obtain ⟨bytes, hbytes, hb⟩ := List.mem_flatten.mp (hread.subset List.mem_cons_self)
    obtain ⟨type, rfl, hvouched⟩ := hes bytes hbytes
    exact ⟨type.result, List.mem_singleton.mp hb, .inr ⟨type, rfl, hvouched⟩⟩

/-- What comes back makes no difference to what the command line gives. -/
theorem Client.Types.answer (h : Client.Types w argv req p text) (answer : List UInt8) :
    Client.Types { w with answer := answer } argv req p text :=
  ⟨h.parses, h.length, h.sendLength, h.value, h.kept, h.nonempty, h.addressed, h.opened, h.written⟩

end MeshNet
