import MeshNet.Format.Create

/-!
# The buffers frames are written into

`format_create` is not told how large its buffer is. Each of its calls sizes the buffer in
its own way: by the largest message, or by the structure that is sent, with or without the
header of a frame.
-/

namespace MeshNet

/-- The calls of `format_create`, named after the functions they stand in. -/
inductive CallSite where
  | clientMain
  | serverHandlePing | serverHandleReset | serverHandleBroadcast | serverMakeSendToNode
  | updateNodeState | notifyServer | broadcastRoute | broadcast
  | sendUnicastContest | sendUnicastFirst
  | handleServerSend | handleUnicastFirst | handleNodeRouteInverse | sendNext
  | routeDirectHandleDelivered
  deriving DecidableEq, Repr

namespace CallSite

/-- The size of the array `b` or `buf` at the call. -/
def bufSize : CallSite → Nat
  | clientMain | serverHandlePing | serverHandleBroadcast | serverMakeSendToNode
  | broadcastRoute | broadcast | handleServerSend | handleUnicastFirst | sendNext
  | routeDirectHandleDelivered => maxMsgLen
  | serverHandleReset | notifyServer => sizeofNotify + msgBaseLen
  | updateNodeState => sizeofNodeUpdate + msgBaseLen
  | sendUnicastContest | sendUnicastFirst => sizeofUnicastContest + msgBaseLen
  | handleNodeRouteInverse => sizeofNodePacket

def sender : CallSite → RequestSender
  | clientMain => .client
  | serverHandlePing | serverHandleReset | serverHandleBroadcast | serverMakeSendToNode => .server
  | _ => .node

/-- The request and the kind of payload a call passes. -/
def Passes : CallSite → Request → Option Payload → Prop
  | clientMain, _, _ => True
  | serverHandlePing, req, payload => req = .ping ∧ payload = none
  | serverHandleReset, req, payload => req = .reset ∧ payload = none
  | serverHandleBroadcast, req, payload =>
    (req = .broadcast ∨ req = .unicast) ∧ ∃ p, payload = some (.packet p)
  | updateNodeState, req, payload => req = .update ∧ ∃ u, payload = some (.update u)
  | notifyServer, req, payload => req = .notify ∧ ∃ n, payload = some (.notify n)
  | sendUnicastContest, req, payload => req = .unicastContest ∧ ∃ c, payload = some (.contest c)
  | sendUnicastFirst, req, payload => req = .unicastFirst ∧ ∃ c, payload = some (.contest c)
  | broadcastRoute, req, payload => req = .routeDirect ∧ ∃ p, payload = some (.packet p)
  | handleNodeRouteInverse, req, payload | routeDirectHandleDelivered, req, payload =>
    req = .routeInverse ∧ ∃ p, payload = some (.packet p)
  | serverMakeSendToNode, req, payload | broadcast, req, payload | handleServerSend, req, payload
  | handleUnicastFirst, req, payload | sendNext, req, payload =>
    req = .send ∧ ∃ p, payload = some (.packet p)

end CallSite

/-- The length of a frame before it is squeezed into a byte. -/
def frameLength : Option Payload → Nat
  | none => msgBaseLen
  | some (.addr _) => 1 + msgBaseLen
  | some (.update _) => sizeofNodeUpdate + msgBaseLen
  | some (.notify _) => msgBaseLen + sizeofNotify
  | some (.packet p) =>
    sizeofNodePacket - sizeofAppPayload + (8 + p.appPayload.messageLen.toNat) + msgBaseLen
  | some (.contest _) => sizeofUnicastContest + msgBaseLen

/-- The walk stays in the buffer and within the length it declares, and that length is not
truncated. -/
def StaysInBuffer (site : CallSite) (payload : Option Payload) (f : Frame) : Prop :=
  f.bytes.length ≤ site.bufSize ∧ f.bytes.length ≤ f.len.toNat ∧ f.len.toNat = frameLength payload

variable {getpid : Int32} {req : Request} {payload : Option Payload} {sender : RequestSender}
  {f : Frame}

theorem formatCreate_len (h : formatCreate getpid req payload sender = some f)
    (hfits : ∀ p ∈ payload, ∀ a ∈ p.appPayload?, a.Fits) : f.len.toNat = frameLength payload := by
  obtain ⟨rfl, rfl⟩ | ⟨a, rfl, -, rfl⟩ | ⟨u, rfl, -, rfl⟩ | ⟨n, rfl, -, rfl⟩ | ⟨p, rfl, -, rfl⟩ |
    ⟨c, rfl, -, rfl⟩ := formatCreate_cases h
  any_goals rfl
  have hp : p.appPayload.Fits := hfits _ rfl _ rfl
  rw [len_createPacket _ _ hp]
  simp only [frameLength, sizeofNodePacket, sizeofAppPayload, msgBaseLen, appMessageLen]
  omega

/-- No frame is longer than a unicast contest or than a packet with a full message. -/
theorem formatCreate_length_le_max (h : formatCreate getpid req payload sender = some f)
    (hfits : ∀ p ∈ payload, ∀ a ∈ p.appPayload?, a.Fits) : f.bytes.length ≤ 167 := by
  have hle := formatCreate_length_le h hfits
  rw [formatCreate_len h hfits] at hle
  rcases payload with _ | a | p | u | n | c
  · exact Nat.le_trans hle (show 3 ≤ 167 by decide)
  · exact Nat.le_trans hle (show 4 ≤ 167 by decide)
  · have hp := AppPayload.fits_iff.mp (hfits _ rfl p.appPayload rfl)
    simp only [frameLength, sizeofNodePacket, sizeofAppPayload, msgBaseLen, appMessageLen] at hle
    omega
  · exact Nat.le_trans hle (show 10 ≤ 167 by decide)
  · exact Nat.le_trans hle (show 6 ≤ 167 by decide)
  · exact Nat.le_trans hle (show 163 ≤ 167 by decide)

/-- A call that is not `handle_node_route_inverse`'s has room for whatever it writes. -/
theorem length_le_bufSize {site : CallSite} (hpass : site.Passes req payload)
    (h : formatCreate getpid req payload site.sender = some f)
    (hfits : ∀ p ∈ payload, ∀ a ∈ p.appPayload?, a.Fits)
    (hsite : site ≠ .handleNodeRouteInverse) : f.bytes.length ≤ site.bufSize := by
  have hmax := formatCreate_length_le_max h hfits
  have hle := formatCreate_length_le h hfits
  rw [formatCreate_len h hfits] at hle
  cases site
  case handleNodeRouteInverse => exact absurd rfl hsite
  case serverHandleReset =>
    obtain ⟨-, rfl⟩ := hpass
    exact Nat.le_trans hle (by decide)
  case notifyServer =>
    obtain ⟨-, n, rfl⟩ := hpass
    exact hle
  case updateNodeState =>
    obtain ⟨-, u, rfl⟩ := hpass
    exact hle
  case sendUnicastContest =>
    obtain ⟨-, c, rfl⟩ := hpass
    exact hle
  case sendUnicastFirst =>
    obtain ⟨-, c, rfl⟩ := hpass
    exact hle
  all_goals exact Nat.le_trans hmax (by decide)

/-- Every call keeps to its buffer, except that the inverse handler has room for messages of
at most 147 bytes. -/
theorem staysInBuffer_iff {site : CallSite} (hpass : site.Passes req payload)
    (hfits : ∀ p ∈ payload, ∀ a ∈ p.appPayload?, a.Fits)
    (h : formatCreate getpid req payload site.sender = some f) :
    StaysInBuffer site payload f ↔
      (site = .handleNodeRouteInverse →
        ∀ p, payload = some (.packet p) → p.appPayload.messageLen.toNat ≤ appMessageLen - 3) := by
  have hle := formatCreate_length_le h hfits
  have hlen := formatCreate_len h hfits
  by_cases hsite : site = .handleNodeRouteInverse
  · subst hsite
    obtain ⟨rfl, p, rfl⟩ := hpass
    have hp : p.appPayload.Fits := hfits _ rfl _ rfl
    obtain rfl : createPacket .routeInverse .node p = f := Option.some.inj h
    have hwritten := length_createPacket .routeInverse .node hp
    simp only [StaysInBuffer, hlen, and_true, hwritten, CallSite.bufSize,
      true_implies, Option.some.injEq, Payload.packet.injEq, forall_eq', sizeofNodePacket,
      sizeofAppPayload, appMessageLen]
    omega
  · simp only [hsite, false_implies, iff_true]
    exact ⟨length_le_bufSize hpass h hfits hsite, hle, hlen⟩

/-- A packet on its way back, with a message of the given length. -/
def inversePacket (messageLen : UInt8) : NodePacket :=
  ⟨1, 2, 3, 4, ⟨.known .delivery, 0, 0, 9, messageLen, .zero, 0⟩, 0⟩

/-- An inverse packet with a full message is written three bytes past its buffer. -/
theorem handleNodeRouteInverse_overruns :
    ¬ ∀ (getpid : Int32) (site : CallSite) (req : Request) (payload : Option Payload) (f : Frame),
      site.Passes req payload → (∀ p ∈ payload, ∀ a ∈ p.appPayload?, a.Fits) →
        formatCreate getpid req payload site.sender = some f → StaysInBuffer site payload f := by
  intro h
  have hp : (inversePacket 150).appPayload.Fits := Nat.le_refl 150
  have hstays := h 0 .handleNodeRouteInverse .routeInverse (some (.packet (inversePacket 150)))
    (createPacket .routeInverse .node (inversePacket 150)) ⟨rfl, _, rfl⟩
    (fun q hq a ha => by cases hq; cases ha; exact hp) rfl
  have hwritten := length_createPacket .routeInverse .node hp
  have hbuf : 17 + 150 ≤ 164 := hwritten ▸ hstays.1
  exact absurd hbuf (by decide)

theorem staysInBuffer_iff_inversePacket :
    StaysInBuffer .handleNodeRouteInverse (some (.packet (inversePacket 147)))
        (createPacket .routeInverse .node (inversePacket 147)) ↔
      (CallSite.handleNodeRouteInverse = .handleNodeRouteInverse → ∀ p,
        some (Payload.packet (inversePacket 147)) = some (.packet p) →
          p.appPayload.messageLen.toNat ≤ appMessageLen - 3) :=
  staysInBuffer_iff ⟨rfl, _, rfl⟩
    (fun q hq a ha => by
      cases hq
      cases ha
      exact (by decide : 147 ≤ 150))
    (show formatCreate 0 .routeInverse (some (.packet (inversePacket 147))) .node = _ from rfl)

end MeshNet
