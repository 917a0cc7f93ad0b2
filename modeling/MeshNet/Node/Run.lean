import MeshNet.Library.Run
import MeshNet.Node.Direct

/-!
# Runs of a node

What a node keeps while it handles any sequence of requests: its address and its apps, and a
table that knows only ids it was sent.
-/

namespace MeshNet
open Library

/-- A node handles what came over a connection. -/
def nodeStep (z : Zlib) (n : Node) (i : Env × List UInt8) : Node :=
  (nodeHandleRequest z i.1 n i.2).2

/-- What a node does while it handles a frame. -/
def newEvents (z : Zlib) (n : Node) (i : Env × List UInt8) : List Event :=
  (nodeStep z n i).link.trace.drop n.link.trace.length

/-- The server asks for a reset. -/
def IsReset (i : Env × List UInt8) : Prop :=
  ∃ incoming, receive i.1.heap i.1.stack i.2 = some incoming ∧ incoming.sender = .known .server ∧
    incoming.parsed.req = .known .reset

/-- The id of the message that a request carries. -/
def messageId (i : Env × List UInt8) : Option UInt16 := do
  let incoming ← receive i.1.heap i.1.stack i.2
  let payload ← incoming.parsed.payload
  let a ← payload.appPayload?
  return a.id

variable {z : Zlib} {env : Env} {n : Node} {k : UInt16}

theorem nodeStep_packet {req : Request} {sender : RequestSender} {p : NodePacket}
    (hreq : req.layout = some .packet) (hfits : p.appPayload.Fits) (buf : Nat → UInt8) :
    nodeStep z n (env, (createPacket req sender p).sent buf) =
      (nodeListenerHandle z env n (.known sender)
        ⟨.known req, some (.packet (p.received env.heap)), false⟩).2 := by
  simp only [nodeStep, nodeHandleRequest, receive_packet hreq hfits]

theorem nodeStep_contest {req : Request} {sender : RequestSender} {c : UnicastContest}
    (hreq : req.layout = some .contest) (hfits : c.appPayload.Fits) (buf : Nat → UInt8) :
    nodeStep z n (env, (createContest req sender c).sent buf) =
      (nodeListenerHandle z env n (.known sender)
        ⟨.known req, some (.contest (c.received env.heap)), false⟩).2 := by
  simp only [nodeStep, nodeHandleRequest, receive_contest hreq hfits]

/-! ## Address and apps -/

/-- A node that answers to the same address with the same apps. -/
def Node.SameHost (n m : Node) : Prop := m.addr = n.addr ∧ m.apps = n.apps

theorem sameHost_handleServerSend (cmd : Request) (p : NodePacket) :
    n.SameHost (handleServerSend z env n cmd p).2 := by
  unfold handleServerSend
  dsimp only
  split_ifs <;> exact ⟨rfl, rfl⟩

theorem sameHost_handleNodeSend (p : NodePacket) : n.SameHost (handleNodeSend z env n p).2 := by
  unfold handleNodeSend nodeHandleAppRequest sendNext
  dsimp only
  split_ifs <;> exact ⟨rfl, rfl⟩

theorem sameHost_routeDirectHandleDelivered (p : NodePacket) :
    n.SameHost (routeDirectHandleDelivered z env n p).2 := by
  unfold routeDirectHandleDelivered
  dsimp only
  split_ifs <;> exact ⟨rfl, rfl⟩

theorem sameHost_handleNodeRouteDirect (p : NodePacket) :
    n.SameHost (handleNodeRouteDirect z env n p).2 := by
  by_cases hv : p.Valid
  · by_cases ht : n.messages.Taken p.appPayload.id
    · rw [handleNodeRouteDirect_of_taken ht]
      exact ⟨rfl, rfl⟩
    · rw [handleNodeRouteDirect_of_not_taken hv ht]
      split
      · exact sameHost_routeDirectHandleDelivered (n := n.takeIn p) p
      · exact ⟨rfl, rfl⟩
  · rw [handleNodeRouteDirect_of_not_valid hv]
    exact ⟨rfl, rfl⟩

theorem sameHost_handleNodeRouteInverse (p : NodePacket) :
    n.SameHost (handleNodeRouteInverse env n p).2 := by
  unfold handleNodeRouteInverse
  dsimp only
  split_ifs <;> exact ⟨rfl, rfl⟩

theorem sameHost_handleUnicastFirst (c : UnicastContest) :
    n.SameHost (handleUnicastFirst env n c) := by
  unfold handleUnicastFirst
  dsimp only
  split <;> exact ⟨rfl, rfl⟩

/-- Whatever a node handles, it hosts what it has hosted from the start. -/
theorem sameHost_nodeListenerHandle (sender : Packed RequestSender) (parsed : Parsed)
    (happs : n.apps = nodeAppFillDefault n.addr) :
    n.SameHost (nodeListenerHandle z env n sender parsed).2 := by
  unfold nodeListenerHandle
  split
  · unfold nodeHandleServer
    split
    · exact ⟨rfl, rfl⟩
    · exact sameHost_handleServerSend _ _
    · exact ⟨rfl, happs.symm⟩
    · exact ⟨rfl, rfl⟩
    · exact ⟨rfl, rfl⟩
    · exact ⟨rfl, rfl⟩
  · unfold nodeHandleNode
    split
    · exact sameHost_handleNodeSend _
    · exact sameHost_handleNodeRouteDirect _
    · exact sameHost_handleNodeRouteInverse _
    · exact ⟨rfl, rfl⟩
    · exact sameHost_handleUnicastFirst _
    · exact ⟨rfl, rfl⟩
  · exact ⟨rfl, rfl⟩

theorem run_sameHost (addr : UInt8) (is : List (Env × List UInt8)) :
    (Node.start addr).SameHost (run (nodeStep z) (.start addr) is) := by
  refine run_invariant (Node.start addr).SameHost (fun n i hn => ?_) ⟨rfl, rfl⟩
  have happs : n.apps = nodeAppFillDefault n.addr := by rw [hn.2, hn.1]; rfl
  unfold nodeStep nodeHandleRequest
  split
  · rename_i incoming _
    obtain ⟨haddr, happs⟩ : n.SameHost
        (nodeListenerHandle z i.1 n incoming.sender incoming.parsed).2 :=
      sameHost_nodeListenerHandle _ _ happs
    exact ⟨haddr.trans hn.1, happs.trans hn.2⟩
  · exact hn

/-! ## The ids in the table -/

theorem messages_handleServerSend (cmd : Request) (p : NodePacket) :
    (handleServerSend z env n cmd p).2.messages = n.messages := by
  unfold handleServerSend
  dsimp only
  split_ifs <;> rfl

theorem messages_handleNodeSend (p : NodePacket) :
    (handleNodeSend z env n p).2.messages = n.messages := by
  unfold handleNodeSend nodeHandleAppRequest sendNext
  dsimp only
  split_ifs <;> rfl

theorem messages_handleNodeRouteInverse (p : NodePacket) :
    (handleNodeRouteInverse env n p).2.messages = n.messages := by
  unfold handleNodeRouteInverse
  dsimp only
  split_ifs <;> rfl

theorem known_handleNodeRouteDirect {p : NodePacket} (hk : p.appPayload.id ≠ k)
    (h : n.messages.lookup k = none) :
    (handleNodeRouteDirect z env n p).2.messages.lookup k = none := by
  by_cases hv : p.Valid
  · by_cases ht : n.messages.Taken p.appPayload.id
    · rw [handleNodeRouteDirect_of_taken ht, h]
    · rw [(lookup_handleNodeRouteDirect hv ht).2 k hk, h, ite_self]
  · rw [handleNodeRouteDirect_of_not_valid hv, h]

/-- A request brings no other id into the table than that of its own message. -/
theorem lookup_nodeListenerHandle {sender : Packed RequestSender} {parsed : Parsed}
    (hk : ∀ payload ∈ parsed.payload, ∀ a ∈ payload.appPayload?, a.id ≠ k)
    (hreset : ¬ (sender = .known .server ∧ parsed.req = .known .reset))
    (h : n.messages.lookup k = none) :
    (nodeListenerHandle z env n sender parsed).2.messages.lookup k = none := by
  unfold nodeListenerHandle
  split
  · unfold nodeHandleServer
    split
    · exact h
    · rwa [messages_handleServerSend]
    · rename_i hreq
      exact absurd ⟨rfl, hreq⟩ hreset
    · exact h
    · exact h
    · exact h
  · unfold nodeHandleNode
    split
    · rwa [messages_handleNodeSend]
    · rename_i p _ hp
      exact known_handleNodeRouteDirect (hk _ hp _ rfl) h
    · rwa [messages_handleNodeRouteInverse]
    · exact h
    · rename_i c _ hc
      rw [lookup_handleUnicastFirst (hk _ hc _ rfl), h, ite_self]
    · exact h
  · exact h

theorem lookup_nodeStep {i : Env × List UInt8} (hk : messageId i ≠ some k) (hreset : ¬ IsReset i)
    (h : n.messages.lookup k = none) : (nodeStep z n i).messages.lookup k = none := by
  unfold nodeStep nodeHandleRequest
  split
  · rename_i incoming hi
    refine lookup_nodeListenerHandle (fun payload hp a ha hid => hk ?_)
      (fun hr => hreset ⟨incoming, hi, hr⟩) h
    have hp' : incoming.parsed.payload = some payload := hp
    have ha' : payload.appPayload? = some a := ha
    simp [messageId, hi, hp', ha', hid]
  · exact h

/-- Without a reset a node knows no id that it was not sent. -/
theorem lookup_run_start (addr : UInt8) {is : List (Env × List UInt8)}
    (hreset : ∀ i ∈ is, ¬ IsReset i) (hk : ∀ i ∈ is, messageId i ≠ some k) :
    (run (nodeStep z) (.start addr) is).messages.lookup k = none :=
  (steps_of_forall (P := fun _ i => ¬ IsReset i ∧ messageId i ≠ some k)
    fun _ i hi => ⟨hreset i hi, hk i hi⟩).invariant
    (fun n : Node => n.messages.lookup k = none)
    (fun _ _ hi => lookup_nodeStep hi.2 hi.1) rfl

end MeshNet
