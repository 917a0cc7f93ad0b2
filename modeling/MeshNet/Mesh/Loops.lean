import MeshNet.Mesh.Routes
import MeshNet.Node.Reset

/-!
# Following the routes

As long as no node keeps a longer way to a receiver than the one that an answer comes by, the routes
lead to where they should, and nowhere twice. Otherwise two nodes may name each other.
-/

namespace MeshNet
open Library

/-! ## Whole runs -/

/-- All routes and all packets are in order. -/
structure Protocol.Routed (s : Protocol) : Prop where
  near : s.Local
  descending : ∀ d, Descending s.tables d
  flights : ∀ src b, ∀ f ∈ s.wire src b, Backed s.tables src b f.hops f.packet

/-- The answer that a node is about to handle. -/
def inverse? (env : Env) (bytes : List UInt8) : Option NodePacket :=
  match receive env.heap env.stack bytes with
  | some ⟨.known .node, ⟨.known .routeInverse, some (.packet p), _⟩⟩ => some p
  | _ => none

/-- The node keeps a way to the receiver that is longer than the one that the answer comes by. -/
def Node.Overlooks (n : Node) (p : NodePacket) : Prop :=
  p.receiverAddr ≠ n.addr ∧ n.routing.nextAddr p.receiverAddr ≠ noAddr ∧
    RoutingTable.newMetric p.timeToLive < (n.routing.get p.receiverAddr).metric

instance (n : Node) (p : NodePacket) : Decidable (n.Overlooks p) := by
  unfold Node.Overlooks
  infer_instance

namespace Mesh

/-- Who is next on the way from `a` to `d`. -/
def nextHop (m : Mesh) (d a : UInt8) : Option UInt8 :=
  if (m.node a).routing.nextAddr d = noAddr then none else some ((m.node a).routing.nextAddr d)

/-- An answer comes by a shorter way than the one that the node keeps. -/
def Label.Overlooked (m : Mesh) : Label → Prop
  | .deliver src (.node addr) env _ =>
    ∃ f ∈ (m.wire src (.node addr)).head?, ∃ p ∈ inverse? env f.packet, (m.node addr).Overlooks p
  | _ => False

instance (m : Mesh) : (l : Label) → Decidable (l.Overlooked m)
  | .client .. => inferInstanceAs (Decidable False)
  | .deliver _ .server .. => inferInstanceAs (Decidable False)
  | .deliver src (.node addr) env _ =>
    inferInstanceAs (Decidable (∃ f ∈ (m.wire src (.node addr)).head?,
      ∃ p ∈ inverse? env f.packet, (m.node addr).Overlooks p))

end Mesh

variable {z : Zlib} {env : Env} {senv : ServerEnv} {pids : UInt8 → Int32} {fds : UInt8 ↪ Int}
  {id : UInt16} {a b d : UInt8} {src : Peer} {bytes : List UInt8} {msg : Msg} {n : Node}
  {m : Mesh} {s : Protocol} {children : List Child}

theorem routed_start (id : UInt16) : (Protocol.start id).Routed := by
  have hnone : ∀ b d, ((Protocol.start id).tables b).nextAddr d = noAddr := fun b d =>
    RoutingTable.nextAddr_fillDefault d
  refine ⟨local_start id, fun d => ⟨fun b h => ?_, fun b h => ?_, fun b h => ?_⟩, nofun⟩ <;>
    exact absurd (hnone b d) h

theorem routed_client (h : s.Routed) (sender receiver : UInt8) :
    (s.step (.client sender receiver)).Routed := by
  refine ⟨local_step h.near _, h.descending, fun src b f hf => ?_⟩
  obtain hold | ⟨-, rfl, hpacket, hhops⟩ := Protocol.mem_wire_client hf
  · exact h.flights src b f hold
  · rw [hpacket, hhops]
    exact .inl ⟨rfl, rfl⟩

theorem routed_deliver (h : s.Routed)
    (hkeeps : ∀ f ∈ (s.wire src b).head?, ¬ (s.core b).Overlooks b f.packet) :
    (s.step (.deliver src b)).Routed := by
  cases hwire : s.wire src b with
  | nil => rwa [Protocol.step_deliver_nil hwire]
  | cons f fs =>
    have hf : f ∈ s.wire src b := hwire ▸ List.mem_cons_self
    rw [hwire] at hkeeps
    obtain ⟨hadvances, hout⟩ := orderly_react h.descending rfl (h.near.flights src b f hf)
      (h.flights src b f hf) (hkeeps f rfl)
    have htables := Protocol.tables_deliver hwire
    refine ⟨local_step h.near _, htables ▸ fun d => hadvances.descending (h.descending d),
      fun src' c g hg => ?_⟩
    rw [htables]
    obtain hold | ⟨rfl, hnew, hhops⟩ := Protocol.mem_wire_deliver hwire hg
    · exact (h.flights src' c g hold).advances hadvances
    · rw [hhops]
      exact hout (c, g.packet) hnew

/-! ## From the mesh to the protocol and back -/

/-- The answer in a frame is seen by the node as it is in the protocol. -/
theorem overlooks_inverse? (hframe : FrameOf src bytes msg) (h : n.core.Overlooks n.addr msg) :
    ∃ p ∈ inverse? env bytes, n.Overlooks p := by
  cases hframe with
  | request => exact h.elim
  | send => exact h.elim
  | direct => exact h.elim
  | @inverse a q hq hlocal buf =>
    refine ⟨q.received env.heap, ?_, h⟩
    rw [inverse?, receive_packet (show Request.routeInverse.layout = some .packet from rfl) hq.fits]
    rfl

theorem hops_le_of_send (h : s.Routed) {g : Flight Msg} (hg : g ∈ s.wire src b)
    {sender receiver : UInt8} {id : UInt16} (hsend : g.packet = .send sender receiver id) :
    g.hops ≤ nodeCount - 1 := by
  have hbacked : Backed s.tables src b g.hops g.packet := h.flights src b g hg
  rw [hsend] at hbacked
  obtain ⟨-, hzero⟩ | hknows := hbacked
  · omega
  · have hle := hknows.pos (h.descending receiver)
    rw [toInt_ttl] at hle
    change g.hops ≤ 99
    omega

/-- Every frame on a connection stands for a packet. -/
theorem exists_carries {fs : List (Flight (List UInt8))} {gs : List (Flight Msg)}
    (h : List.Forall₂ (Carries src) fs gs) {f : Flight (List UInt8)} (hf : f ∈ fs) :
    ∃ g ∈ gs, Carries src f g := by
  induction h with
  | nil => cases hf
  | cons hcarries _ ih => grind

/-- Of the frames that nodes get, only those of messages are taken for requests to send. -/
theorem exists_send_of_frameOf {heap : Message} {stack : Nat → UInt8} {incoming : Incoming}
    (hframe : FrameOf src bytes msg) (h : receive heap stack bytes = some incoming)
    (hreq : incoming.parsed.req = .known .send) :
    ∃ sender receiver id, msg = .send sender receiver id := by
  cases hframe with
  | request => exact ⟨_, _, _, rfl⟩
  | send => exact ⟨_, _, _, rfl⟩
  | direct hq hlocal buf =>
    rw [receive_packet rfl hq.fits] at h
    cases h
    cases hreq
  | inverse hq hlocal buf =>
    rw [receive_packet rfl hq.fits] at h
    cases h
    cases hreq

namespace Mesh

/-- The mesh is where the protocol may be when its tables and packets are in order. -/
def Routed (children : List Child) (m : Mesh) : Prop := ∃ s, Refines children m s ∧ s.Routed

theorem routed_step (h : m.Routed (start pids fds id).server.children) {l : Label}
    (hl : l.Healthy) (hkeeps : ¬ l.Overlooked m) :
    (m.step z l).Routed (start pids fds id).server.children := by
  obtain ⟨s, hrefines, hrouted⟩ := h
  refine ⟨_, refines_step hrefines hl, ?_⟩
  cases l with
  | client fd packet senv => exact routed_client hrouted _ _
  | deliver src dst env senv =>
    cases dst with
    | server => exact hrouted
    | node addr =>
      refine routed_deliver hrouted fun g hg hover => hkeeps ?_
      have hfront := hrefines.wire src addr
      obtain ⟨gs, hwire⟩ := List.head?_eq_some_iff.mp hg
      rw [hwire, List.forall₂_cons_right_iff] at hfront
      obtain ⟨f, fs, ⟨hframe, -⟩, -, hwire'⟩ := hfront
      rw [← hrefines.core] at hover
      refine ⟨f, by rw [hwire']; rfl, overlooks_inverse? hframe ?_⟩
      rwa [hrefines.addr]

theorem Routed.descends (h : m.Routed children) (d : UInt8) :
    Descends (m.nextHop d) d fun a => ((m.node a).routing.get d).metric.toInt := by
  obtain ⟨s, hrefines, hrouted⟩ := h
  have htable : ∀ a, (m.node a).routing = s.tables a := fun a =>
    congrArg Core.routing (hrefines.core a)
  have hsome : ∀ a b, m.nextHop d a = some b →
      (s.tables a).nextAddr d ≠ noAddr ∧ (s.tables a).nextAddr d = b := by
    intro a b hab
    rw [nextHop, htable] at hab
    split at hab
    · cases hab
    · exact ⟨‹_›, Option.some.inj hab⟩
  refine ⟨fun a b hab => ?_, fun a b hab => ?_⟩
  · rw [htable]
    exact (hrouted.descending d).pos a (hsome a b hab).1
  · obtain ⟨hroute, rfl⟩ := hsome a b hab
    obtain ⟨heq, -⟩ | ⟨hnext, hlt⟩ := (hrouted.descending d).hop a hroute
    · exact .inl heq
    · refine .inr ⟨_, by rw [nextHop, htable, if_neg hnext], ?_⟩
      rw [htable, htable]
      omega

/-- Every route leads to its destination and nowhere twice, and no message was sent on more often
than there are other nodes. -/
structure Valid (m : Mesh) : Prop where
  leads : ∀ d a, a ≠ d → m.nextHop d a ≠ none → ∃ p, Leads (m.nextHop d) d a p ∧ p.Nodup
  hops : ∀ src dst, ∀ f ∈ m.wire src dst, ∀ heap stack,
    ∀ incoming ∈ receive heap stack f.packet, incoming.parsed.req = .known .send →
      f.hops ≤ nodeCount - 1

theorem Routed.valid (h : m.Routed children) : m.Valid := by
  refine ⟨fun d a _ hroute => (h.descends d).exists_leads hroute,
    fun src dst f hf heap stack incoming hreceive hreq => ?_⟩
  obtain ⟨s, hrefines, hs⟩ := h
  cases dst with
  | server =>
    obtain ⟨notify, buf, hnotify⟩ := hrefines.notices src f hf
    rw [hnotify, receive_notify] at hreceive
    cases hreceive
    cases hreq
  | node b =>
    obtain ⟨g, hg, hframe, hhops⟩ := exists_carries (hrefines.wire src b) hf
    obtain ⟨sender, receiver, id, hsend⟩ := exists_send_of_frameOf hframe hreceive hreq
    rw [hhops]
    exact hops_le_of_send hs hg hsend

/-- As long as no node keeps a longer way than an answer comes by, the routes are valid. -/
theorem routes_run (z : Zlib) (pids : UInt8 → Int32) (fds : UInt8 ↪ Int) (id : UInt16)
    (ls : List Label)
    (h : Steps (step z) (fun m l => l.Healthy ∧ ¬ l.Overlooked m) (start pids fds id) ls) :
    (run (step z) (start pids fds id) ls).Valid := by
  have hrouted : (run (step z) (start pids fds id) ls).Routed (start pids fds id).server.children :=
    h.invariant (Routed (start pids fds id).server.children)
      (fun _ _ hl hm => routed_step hm hl.1 hl.2)
      ⟨_, refines_start pids fds id, routed_start id⟩
  exact hrouted.valid

/-! ### Two nodes that name each other -/

/-- The server has the descriptor `addr + 10` for every node. -/
def descriptors : UInt8 ↪ Int where
  toFun addr := addr.toNat + 10
  inj' a b h := UInt8.toNat_inj.mp (by dsimp only at h; omega)

/-- A client asks for a message. -/
def Label.ask (sender receiver : UInt8) : Label :=
  .client 5 ⟨sender, receiver, 0, 0, .blank .delivery, 0⟩ .quiet

/-- A connection to a node delivers, and everything that the node does succeeds. -/
def Label.hand (src : Peer) (dst : UInt8) : Label :=
  .deliver src (.node dst) (.zeroed .ideal) .quiet

theorem Label.healthy_ask (sender receiver : UInt8) : (Label.ask sender receiver).Healthy :=
  ⟨fits_blank _, fun _ _ => rfl⟩

theorem Label.healthy_hand (src : Peer) (dst : UInt8) : (Label.hand src dst).Healthy :=
  Net.ideal_healthy

/-- A client asks for a message, and its sender looks for the receiver. -/
def asked (sender receiver : UInt8) : List Label := [.ask sender receiver, .hand .server sender]

/-- Connections between nodes deliver one after the other. -/
def handed (hops : List (UInt8 × UInt8)) : List Label :=
  hops.map fun hop => .hand (.node hop.1) hop.2

theorem healthy_asked {sender receiver : UInt8} : ∀ l ∈ asked sender receiver, l.Healthy := by
  intro l hl
  obtain rfl | hl := List.mem_cons.mp hl
  · exact Label.healthy_ask _ _
  · exact List.mem_singleton.mp hl ▸ Label.healthy_hand _ _

theorem healthy_handed {hops : List (UInt8 × UInt8)} : ∀ l ∈ handed hops, l.Healthy := by
  intro l hl
  obtain ⟨hop, -, rfl⟩ := List.mem_map.mp hl
  exact Label.healthy_hand _ _

theorem routes_run_answered :
    (run (step .stored) (start (fun _ => 1) descriptors 1)
      (asked 0 1 ++ handed [(0, 1), (1, 0)])).Valid :=
  routes_run .stored (fun _ => 1) descriptors 1 _ (steps_and.mpr
    ⟨steps_of_forall fun _ l hl =>
      (List.mem_append.mp hl).elim (healthy_asked l) (healthy_handed l), by decide +kernel⟩)

/-- An answer leaves node 10 a way to node 0 that is longer than the one it has just come by: node 1
takes that one for its own way, and node 10 keeps the one by node 1. -/
def crossed : List Label :=
  asked 22 0 ++ handed [(22, 1), (1, 12), (12, 11), (11, 2), (2, 0), (0, 2), (2, 11), (2, 11),
    (11, 12), (11, 12), (12, 1), (12, 1)] ++
  asked 10 0 ++ handed [(10, 1), (1, 0), (1, 0), (0, 1), (1, 10), (1, 10), (1, 10)] ++
  asked 0 99 ++ handed [(0, 10), (10, 1), (10, 1), (10, 1)]

theorem healthy_crossed : ∀ l ∈ crossed, l.Healthy := by
  intro l hl
  simp only [crossed, List.mem_append] at hl
  obtain ((((hl | hl) | hl) | hl) | hl) | hl := hl
  · exact healthy_asked l hl
  · exact healthy_handed l hl
  · exact healthy_asked l hl
  · exact healthy_handed l hl
  · exact healthy_asked l hl
  · exact healthy_handed l hl

/-- The nodes 1 and 10 name each other on the way to node 0. -/
theorem routes_crossed :
    ¬ ∀ (z : Zlib) (pids : UInt8 → Int32) (fds : UInt8 ↪ Int) (id : UInt16) (ls : List Label),
      Steps (step z) (fun _ l => l.Healthy) (start pids fds id) ls →
        (run (step z) (start pids fds id) ls).Valid := by
  intro hclaim
  have hsteps : Steps (step .stored) (fun _ l => l.Healthy) (start (fun _ => 1) descriptors 1)
      crossed := steps_of_forall fun _ => healthy_crossed
  have hrefines := refines_run hsteps
  have hroutes : ((run Protocol.step (.start 1) (crossed.flatMap Label.protocol)).core
        10).routing.nextAddr 0 = 1 ∧
      ((run Protocol.step (.start 1) (crossed.flatMap Label.protocol)).core
        1).routing.nextAddr 0 = 10 := by
    decide +kernel
  have htable : ∀ a, ((run (step .stored) (start (fun _ => 1) descriptors 1) crossed).node
      a).routing = ((run Protocol.step (.start 1) (crossed.flatMap Label.protocol)).core
        a).routing := fun a => congrArg Core.routing (hrefines.core a)
  have hvalid := hclaim .stored (fun _ => 1) descriptors 1 crossed hsteps
  generalize run (step .stored) (start (fun _ => 1) descriptors 1) crossed = m at htable hvalid
  rw [← htable, ← htable] at hroutes
  have hnext : ∀ v w, v = 10 ∨ v = 1 → m.nextHop 0 v = some w → w = 10 ∨ w = 1 := by
    intro v w hv hw
    unfold nextHop at hw
    grind
  obtain ⟨p, hp, -⟩ := hvalid.leads 0 10 (by decide) (by rw [nextHop, hroutes.1]; decide)
  exact absurd (hp.closed hnext (.inl rfl)) (by decide)

end Mesh

end MeshNet
