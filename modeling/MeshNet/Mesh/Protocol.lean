import MeshNet.Library.Run
import MeshNet.Node.Direct
import Mathlib.Logic.Function.Basic

/-!
# The protocol of the mesh

What the nodes do for one another when nothing fails, without the bytes in which they do it: a
message is sent along the routes there are or flooded, and its receiver sends an inverse packet
back to where it came from. Every connection delivers in order; nothing is said about the order
of different connections.
-/

namespace MeshNet
open Library

inductive Peer where
  | server
  | node (addr : UInt8)
  deriving DecidableEq

/-- What matters of a packet. The node that sent it on is known by the connection. -/
inductive Msg where
  | send (sender receiver : UInt8) (id : UInt16)
  | direct (sender receiver : UInt8) (timeToLive : Int8) (id : UInt16)
  | inverse (sender receiver : UInt8) (timeToLive : Int8) (id : UInt16)
  deriving DecidableEq

/-- A packet on a connection. It was caused by the last of as many packets as `hops` says, each of
which was caused by the one before. -/
structure Flight (ε : Type) where
  packet : ε
  hops : Nat
  deriving DecidableEq

/-- What matters of a node: its tables, and the ids of the messages its apps were given. -/
structure Core where
  routing : RoutingTable
  messages : MessageTable
  handled : List UInt16

namespace Core

def start : Core := ⟨.fillDefault, .initial, []⟩

def flood (addr sender receiver : UInt8) (timeToLive : Int8) (id : UInt16) : List (UInt8 × Msg) :=
  (fillNeighborsPort addr).map fun port =>
    (nodeAddr port, .direct sender receiver (timeToLive - 1) id)

variable (addr : UInt8) (c : Core)

/-- Give the message to an app, send it on or look for its receiver. -/
def send (sender receiver : UInt8) (id : UInt16) : Core × List (UInt8 × Msg) :=
  if receiver = addr then ({ c with handled := c.handled ++ [id] }, [])
  else if c.routing.nextAddr receiver = noAddr then (c, flood addr sender receiver ttl id)
  else (c, [(c.routing.nextAddr receiver, .send sender receiver id)])

/-- The message is marked as answered. -/
def answer (id : UInt16) : Core :=
  { c with messages := (c.messages.register id).setInverseById id true }

/-- Answer a message that has arrived by a flood. -/
def deliver (sender receiver : UInt8) (id : UInt16) : Core × List (UInt8 × Msg) :=
  if c.messages.Answered id then (c, [])
  else if c.routing.nextAddr sender = noAddr then (c.answer id, [])
  else
    ({ c.answer id with handled := c.handled ++ [id] },
      [(c.routing.nextAddr sender, .inverse sender receiver ttl id)])

/-- The message is registered, and the way back is learnt. -/
def takeIn (src sender : UInt8) (timeToLive : Int8) (id : UInt16) : Core :=
  { c with
    messages := (c.messages.register id).setWasMessageById id true
    routing := c.routing.learnDirect sender src timeToLive }

def direct (src sender receiver : UInt8) (timeToLive : Int8) (id : UInt16) :
    Core × List (UInt8 × Msg) :=
  if timeToLive ≤ 0 ∨ c.messages.Taken id then (c, [])
  else if receiver = addr then (c.takeIn src sender timeToLive id).deliver sender receiver id
  else (c.takeIn src sender timeToLive id, flood addr sender receiver timeToLive id)

/-- The way to the receiver is learnt. -/
def learn (src receiver : UInt8) (timeToLive : Int8) : Core :=
  { c with routing := c.routing.learnInverse receiver src timeToLive }

def inverse (src sender receiver : UInt8) (timeToLive : Int8) (id : UInt16) :
    Core × List (UInt8 × Msg) :=
  let c := c.learn src receiver timeToLive
  if sender = addr then (c, [])
  else if c.routing.nextAddr sender = noAddr then (c, [])
  else (c, [(c.routing.nextAddr sender, .inverse sender receiver (timeToLive - 1) id)])

/-- What a node does with a packet from `src`, and what it sends to which nodes. -/
def react (src : UInt8) : Msg → Core × List (UInt8 × Msg)
  | .send sender receiver id => c.send addr sender receiver id
  | .direct sender receiver timeToLive id => c.direct addr src sender receiver timeToLive id
  | .inverse sender receiver timeToLive id => c.inverse addr src sender receiver timeToLive id

/-! ## The cases -/

variable (src sender receiver : UInt8) (timeToLive : Int8) (id : UInt16)

theorem routing_takeIn : (c.takeIn src sender timeToLive id).routing =
    c.routing.learnDirect sender src timeToLive := by
  unfold takeIn
  dsimp only

theorem routing_learn : (c.learn src receiver timeToLive).routing =
    c.routing.learnInverse receiver src timeToLive := by
  unfold learn
  dsimp only

theorem send_cases :
    receiver = addr ∧
        c.send addr sender receiver id = ({ c with handled := c.handled ++ [id] }, []) ∨
      receiver ≠ addr ∧ c.routing.nextAddr receiver = noAddr ∧
        c.send addr sender receiver id = (c, flood addr sender receiver ttl id) ∨
      receiver ≠ addr ∧ c.routing.nextAddr receiver ≠ noAddr ∧
        c.send addr sender receiver id =
          (c, [(c.routing.nextAddr receiver, .send sender receiver id)]) := by
  unfold send
  by_cases hto : receiver = addr
  · exact .inl ⟨hto, if_pos hto⟩
  · rw [if_neg hto]
    by_cases hnext : c.routing.nextAddr receiver = noAddr
    · exact .inr (.inl ⟨hto, hnext, if_pos hnext⟩)
    · exact .inr (.inr ⟨hto, hnext, if_neg hnext⟩)

theorem deliver_cases :
    c.messages.Answered id ∧ c.deliver sender receiver id = (c, []) ∨
      ¬ c.messages.Answered id ∧ c.routing.nextAddr sender = noAddr ∧
        c.deliver sender receiver id = (c.answer id, []) ∨
      ¬ c.messages.Answered id ∧ c.routing.nextAddr sender ≠ noAddr ∧
        c.deliver sender receiver id =
          ({ c.answer id with handled := c.handled ++ [id] },
            [(c.routing.nextAddr sender, .inverse sender receiver ttl id)]) := by
  unfold deliver
  by_cases hanswered : c.messages.Answered id
  · exact .inl ⟨hanswered, if_pos hanswered⟩
  · rw [if_neg hanswered]
    by_cases hnext : c.routing.nextAddr sender = noAddr
    · exact .inr (.inl ⟨hanswered, hnext, if_pos hnext⟩)
    · exact .inr (.inr ⟨hanswered, hnext, if_neg hnext⟩)

theorem direct_cases :
    (timeToLive ≤ 0 ∨ c.messages.Taken id) ∧
        c.direct addr src sender receiver timeToLive id = (c, []) ∨
      0 < timeToLive ∧ ¬ c.messages.Taken id ∧ receiver = addr ∧
        c.direct addr src sender receiver timeToLive id =
          (c.takeIn src sender timeToLive id).deliver sender receiver id ∨
      0 < timeToLive ∧ ¬ c.messages.Taken id ∧ receiver ≠ addr ∧
        c.direct addr src sender receiver timeToLive id =
          (c.takeIn src sender timeToLive id, flood addr sender receiver timeToLive id) := by
  unfold direct
  by_cases hdrop : timeToLive ≤ 0 ∨ c.messages.Taken id
  · exact .inl ⟨hdrop, if_pos hdrop⟩
  · rw [if_neg hdrop]
    obtain ⟨hpos, htaken⟩ := not_or.mp hdrop
    have hpos' : 0 < timeToLive := by grind
    by_cases hto : receiver = addr
    · exact .inr (.inl ⟨hpos', htaken, hto, if_pos hto⟩)
    · exact .inr (.inr ⟨hpos', htaken, hto, if_neg hto⟩)

theorem inverse_cases :
    (sender = addr ∨ (c.learn src receiver timeToLive).routing.nextAddr sender = noAddr) ∧
        c.inverse addr src sender receiver timeToLive id = (c.learn src receiver timeToLive, []) ∨
      sender ≠ addr ∧ (c.learn src receiver timeToLive).routing.nextAddr sender ≠ noAddr ∧
        c.inverse addr src sender receiver timeToLive id =
          (c.learn src receiver timeToLive,
            [((c.learn src receiver timeToLive).routing.nextAddr sender,
              .inverse sender receiver (timeToLive - 1) id)]) := by
  unfold inverse
  by_cases hback : sender = addr
  · exact .inl ⟨.inl hback, if_pos hback⟩
  · by_cases hnext : (c.learn src receiver timeToLive).routing.nextAddr sender = noAddr
    · exact .inl ⟨.inr hnext, (if_neg hback).trans (if_pos hnext)⟩
    · exact .inr ⟨hback, hnext, (if_neg hback).trans (if_neg hnext)⟩

end Core

/-- The address by which a peer is known; the server never acts as one of the nodes. -/
def Peer.addr : Peer → UInt8
  | .server => noAddr
  | .node addr => addr

structure Protocol where
  core : UInt8 → Core
  wire : Peer → UInt8 → List (Flight Msg)
  nextId : UInt16

namespace Protocol

inductive Label where
  | client (sender receiver : UInt8)
  | deliver (src : Peer) (dst : UInt8)
  deriving DecidableEq

/-- Nothing was sent yet, and the next message gets the number `id`. -/
def start (id : UInt16) : Protocol := ⟨fun _ => .start, fun _ _ => [], id⟩

/-- Put packets on the connections of `src`. -/
def emit (src : Peer) (hops : Nat) (out : List (UInt8 × Msg))
    (wire : Peer → UInt8 → List (Flight Msg)) : Peer → UInt8 → List (Flight Msg) :=
  fun a b =>
    if a = src then
      wire a b ++ out.filterMap fun o => if o.1 = b then some ⟨o.2, hops⟩ else none
    else wire a b

/-- Take the first packet off a connection. -/
def pop (src : Peer) (dst : UInt8) (wire : Peer → UInt8 → List (Flight Msg)) :
    Peer → UInt8 → List (Flight Msg) :=
  fun a b => if a = src ∧ b = dst then (wire a b).tail else wire a b

def step (s : Protocol) : Label → Protocol
  | .client sender receiver =>
    { s with
      wire := if InMesh sender then emit .server 0 [(sender, .send sender receiver s.nextId)] s.wire
        else s.wire
      nextId := s.nextId + 1 }
  | .deliver src dst =>
    match s.wire src dst with
    | [] => s
    | f :: _ =>
      let r := (s.core dst).react dst src.addr f.packet
      { s with
        core := Function.update s.core dst r.1
        wire := emit (.node dst) (f.hops + 1) r.2 (pop src dst s.wire) }

variable {src x : Peer} {dst b : UInt8} {hops : Nat} {out : List (UInt8 × Msg)} {f : Flight Msg}
  {wire : Peer → UInt8 → List (Flight Msg)}

theorem mem_emit : f ∈ emit src hops out wire x b ↔
    f ∈ wire x b ∨ x = src ∧ (b, f.packet) ∈ out ∧ f.hops = hops := by
  unfold emit
  split
  · rename_i hx
    subst hx
    obtain ⟨msg, h⟩ := f
    simp [List.mem_append, List.mem_filterMap]
    grind
  · rename_i hx
    simp [hx]

theorem mem_of_mem_pop (h : f ∈ pop src dst wire x b) : f ∈ wire x b := by
  unfold pop at h
  split at h
  · exact List.mem_of_mem_tail h
  · exact h

/-- What was on a connection is still there, or it is what was taken off. -/
theorem mem_pop_or {g : Flight Msg} {fs : List (Flight Msg)} (hwire : wire src dst = f :: fs)
    (h : g ∈ wire x b) : g ∈ pop src dst wire x b ∨ x = src ∧ b = dst ∧ g = f := by
  unfold pop
  by_cases hhere : x = src ∧ b = dst
  · obtain ⟨rfl, rfl⟩ := hhere
    rw [if_pos ⟨rfl, rfl⟩, hwire]
    rw [hwire] at h
    grind
  · rw [if_neg hhere]
    exact .inl h

/-- What a step does, case by case. -/
theorem step_deliver_cons {s : Protocol} {fs : List (Flight Msg)} (h : s.wire src dst = f :: fs) :
    s.step (.deliver src dst) =
      { s with
        core := Function.update s.core dst ((s.core dst).react dst src.addr f.packet).1
        wire := emit (.node dst) (f.hops + 1) ((s.core dst).react dst src.addr f.packet).2
          (pop src dst s.wire) } := by
  simp only [step, h]

theorem step_deliver_nil {s : Protocol} (h : s.wire src dst = []) :
    s.step (.deliver src dst) = s := by
  simp only [step, h]

/-! ## What is where after a step -/

variable {s : Protocol} {fs : List (Flight Msg)} {g : Flight Msg}

/-- What a client asks for is put on one connection. -/
theorem mem_wire_client {sender receiver : UInt8}
    (hg : g ∈ (s.step (.client sender receiver)).wire x b) :
    g ∈ s.wire x b ∨ InMesh b ∧ x = .server ∧ g.packet = .send b receiver s.nextId ∧
      g.hops = 0 := by
  simp only [step] at hg
  split at hg
  · rename_i hmesh
    obtain hold | ⟨hx, hnew, hhops⟩ := mem_emit.mp hg
    · exact .inl hold
    · obtain ⟨rfl, hpacket⟩ := Prod.mk.inj (List.mem_singleton.mp hnew)
      exact .inr ⟨hmesh, hx, hpacket, hhops⟩
  · exact .inl hg

/-- What a delivery puts on the connections comes from the node that it was to. -/
theorem mem_wire_deliver (h : s.wire src dst = f :: fs)
    (hg : g ∈ (s.step (.deliver src dst)).wire x b) :
    g ∈ s.wire x b ∨ x = .node dst ∧
      (b, g.packet) ∈ ((s.core dst).react dst src.addr f.packet).2 ∧ g.hops = f.hops + 1 := by
  rw [step_deliver_cons h] at hg
  exact (mem_emit.mp hg).imp_left mem_of_mem_pop

theorem core_deliver (h : s.wire src dst = f :: fs) :
    (s.step (.deliver src dst)).core =
      Function.update s.core dst ((s.core dst).react dst src.addr f.packet).1 := by
  rw [step_deliver_cons h]

/-- A delivery changes the node that it is to and no other. -/
theorem forall_core_deliver (h : s.wire src dst = f :: fs) {P : UInt8 → Core → Prop}
    (hself : P dst ((s.core dst).react dst src.addr f.packet).1)
    (hother : ∀ a, a ≠ dst → P a (s.core a)) (a : UInt8) :
    P a ((s.step (.deliver src dst)).core a) := by
  rw [core_deliver h]
  by_cases ha : a = dst
  · subst ha
    rwa [Function.update_self]
  · rw [Function.update_of_ne ha]
    exact hother a ha

/-- What a node sends is put on its connections. -/
theorem mem_wire_of_sent (h : s.wire src dst = f :: fs) {msg : Msg}
    (hsent : (b, msg) ∈ ((s.core dst).react dst src.addr f.packet).2) :
    ⟨msg, f.hops + 1⟩ ∈ (s.step (.deliver src dst)).wire (.node dst) b := by
  rw [step_deliver_cons h]
  exact mem_emit.mpr (.inr ⟨rfl, hsent, rfl⟩)

/-- Nothing but the packet that is delivered leaves its connection. -/
theorem mem_wire_or (h : s.wire src dst = f :: fs) (hg : g ∈ s.wire x b) :
    g ∈ (s.step (.deliver src dst)).wire x b ∨ x = src ∧ b = dst ∧ g = f := by
  rw [step_deliver_cons h]
  exact (mem_pop_or h hg).imp_left fun hkept => mem_emit.mpr (.inl hkept)

/-- Only clients make the server send anything. -/
theorem server_deliver (h : ∀ b, s.wire .server b = []) (b : UInt8) :
    (s.step (.deliver src dst)).wire .server b = [] := by
  cases hwire : s.wire src dst with
  | nil => rw [step_deliver_nil hwire, h]
  | cons f fs =>
    apply List.eq_nil_iff_forall_not_mem.mpr
    intro g hg
    obtain hold | ⟨hsrc, -⟩ := mem_wire_deliver hwire hg
    · rw [h] at hold
      cases hold
    · cases hsrc

end Protocol

end MeshNet
