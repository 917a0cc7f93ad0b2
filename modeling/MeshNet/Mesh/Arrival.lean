import MeshNet.Mesh.Echo
import MeshNet.Mesh.Rest

/-!
# Whether a flood arrives

A node sends on the first copy of a message that it gets, with what is left of the time to live of
this copy, and ignores all later ones, however far these might still go. A message arrives in all
orders of delivery in which no node on the way gets its first copy with a time to live of one.
-/

namespace MeshNet
open Library

/-- The copy is the first that the node gets, and may not be sent on to any effect. -/
def Node.Starves (n : Node) (p : NodePacket) : Prop :=
  p.timeToLive = 1 ∧ n.addr ≠ p.senderAddr ∧ n.addr ≠ p.receiverAddr ∧
    ¬ n.messages.Taken p.appPayload.id

namespace Mesh

/-- A node that is neither the sender nor the receiver gets its first copy with a time to live of
one. -/
def Label.Starved (m : Mesh) : Label → Prop
  | .deliver src (.node addr) env _ =>
    ∃ f ∈ (m.wire src (.node addr)).head?,
      ∃ p, (.routeDirect, p) ∈ routed? (env, f.packet) ∧ (m.node addr).Starves p
  | _ => False

/-- The receiver has handed the message to its app, once, and the sender has a route to it. -/
structure Arrived (sender receiver : UInt8) (id : UInt16) (m : Mesh) : Prop where
  handled : (m.node receiver).core.handled = [id]
  route : (m.node sender).routing.nextAddr receiver ≠ noAddr

end Mesh

variable {z : Zlib} {env : Env} {senv : ServerEnv} {pids : UInt8 → Int32} {fds : UInt8 ↪ Int}
  {id : UInt16} {sender receiver a b x : UInt8} {src : Peer} {bytes : List UInt8} {msg : Msg}
  {n : Node} {m : Mesh} {s : Protocol} {children : List Child} {k : Int8}

/-! ## From the mesh to the protocol -/

theorem starves_iff (hframe : FrameOf src bytes msg) :
    (∃ p, (.routeDirect, p) ∈ routed? (env, bytes) ∧ n.Starves p) ↔
      n.core.Starves n.addr msg := by
  cases hframe with
  | request hq buf =>
    have hsend : Request.send.layout = some .packet := rfl
    rw [routed?_of_server (receive_packet hsend hq.fits buf)]
    simp [Core.Starves]
  | send hq buf =>
    have hsend : Request.send.layout = some .packet := rfl
    rw [routed?_packet hsend hq.fits]
    simp [Core.Starves]
  | direct hq hlocal buf =>
    have hdirect : Request.routeDirect.layout = some .packet := rfl
    rw [routed?_packet hdirect hq.fits]
    simp only [Option.mem_some_iff, Prod.mk.injEq, true_and, exists_eq_left']
    exact Iff.rfl
  | inverse hq hlocal buf =>
    have hinverse : Request.routeInverse.layout = some .packet := rfl
    rw [routed?_packet hinverse hq.fits]
    simp [Core.Starves]

theorem Refines.starved_iff (h : Refines children m s) :
    (Mesh.Label.deliver src (.node b) env senv).Starved m ↔
      ∃ g ∈ (s.wire src b).head?, (s.core b).Starves b g.packet := by
  have hfront := h.wire src b
  rw [Mesh.Label.Starved]
  generalize m.wire src (.node b) = fs at hfront
  generalize s.wire src b = gs at hfront
  cases hfront with
  | nil => simp
  | cons hcarries _ =>
    simp only [List.head?_cons, Option.mem_some_iff, exists_eq_left']
    rw [starves_iff hcarries.1, h.core, h.addr]

/-! ## The flood arrives -/

/-- The request is on its way to the sender, or the message has been sent. -/
def Protocol.Sending (sender receiver : UInt8) (id : UInt16) (s : Protocol) : Prop :=
  s = (Protocol.start id).step (.client sender receiver) ∨ Spreading sender receiver id s

theorem sending_deliver (h : s.Sending sender receiver id) (hs : InMesh sender)
    (hr : InMesh receiver) (hne : receiver ≠ sender)
    (hfed : ¬ ∃ f ∈ (s.wire src b).head?, (s.core b).Starves b f.packet) :
    (s.step (.deliver src b)).Sending sender receiver id := by
  obtain rfl | hspreading := h
  · by_cases hfirst : src = .server ∧ b = sender
    · obtain ⟨rfl, rfl⟩ := hfirst
      exact .inr (spreading_start hs hne)
    · refine .inl (Protocol.step_deliver_nil ?_)
      by_cases hsrc : src = .server
      · have hb : sender ≠ b := fun heq => hfirst ⟨hsrc, heq.symm⟩
        simp [Protocol.step, hs, Protocol.emit, Protocol.start, hb]
      · simp [Protocol.step, hs, Protocol.emit, Protocol.start, hsrc]
  · exact .inr (spreading_deliver hspreading hs hr hne fun f hf hstarves => hfed ⟨f, hf, hstarves⟩)

namespace Mesh

theorem sending_step
    (h : m.Matches (start pids fds id).server.children (Protocol.Sending sender receiver id))
    (hs : InMesh sender) (hr : InMesh receiver) (hne : receiver ≠ sender) {l : Label}
    (hl : l.Delivers) (hhealthy : l.Healthy) (hfed : ¬ l.Starved m) :
    (m.step z l).Matches (start pids fds id).server.children
      (Protocol.Sending sender receiver id) := by
  apply matches_step h hl hhealthy
  rintro s src b env senv rfl hrefines hsending
  rw [hrefines.starved_iff] at hfed
  exact sending_deliver hsending hs hr hne hfed

/-- Where nothing is on its way any more, the message has arrived. -/
theorem Matches.arrived (h : m.Matches children (Protocol.Sending sender receiver id))
    (hs : InMesh sender) (hr : InMesh receiver) (hne : receiver ≠ sender) (hquiet : m.Quiet) :
    m.Arrived sender receiver id := by
  obtain ⟨s, hrefines, hsending⟩ := h
  have hempty : ∀ src b, s.wire src b = [] := by
    intro src b
    have hwire := hrefines.wire src b
    rwa [hquiet, List.forall₂_nil_left_iff] at hwire
  obtain rfl | hspreading := hsending
  · have hfront := hempty .server sender
    simp [Protocol.step, hs, Protocol.emit, Protocol.start] at hfront
  · obtain ⟨hhandled, hroute⟩ :=
      hspreading.arrived_of_quiet (fun x b => hempty (.node x) b) hs hr hne
    rw [← hrefines.core] at hhandled hroute
    exact ⟨hhandled, hroute⟩

/-- A single message arrives in every order of delivery in which no node between its sender and
its receiver starves. -/
theorem arrived_run (z : Zlib) (pids : UInt8 → Int32) (fds : UInt8 ↪ Int) (id : UInt16) (fd : Int)
    (packet : NodePacket) (senv : ServerEnv) (ls : List Label) (hs : InMesh packet.senderAddr)
    (hr : InMesh packet.receiverAddr) (hne : packet.receiverAddr ≠ packet.senderAddr)
    (hls : ∀ l ∈ ls, l.Delivers)
    (h : Steps (step z) (fun m l => l.Healthy ∧ ¬ l.Starved m) (start pids fds id)
      (.client fd packet senv :: ls))
    (hquiet : (run (step z) (start pids fds id) (.client fd packet senv :: ls)).Quiet) :
    (run (step z) (start pids fds id) (.client fd packet senv :: ls)).Arrived packet.senderAddr
      packet.receiverAddr id := by
  obtain ⟨⟨hclient, -⟩, hsteps⟩ := h
  have hfirst : ((start pids fds id).step z (.client fd packet senv)).Matches
      (start pids fds id).server.children
      (Protocol.Sending packet.senderAddr packet.receiverAddr id) :=
    ⟨_, refines_step (refines_start pids fds id) hclient, .inl rfl⟩
  have hall := steps_and.mpr ⟨steps_of_forall (s := step z (start pids fds id) _)
    fun _ => hls, hsteps⟩
  have hlast := hall.invariant _
    (fun _ _ hl hm => sending_step hm hs hr hne hl.1 hl.2.1 hl.2.2) hfirst
  exact hlast.arrived hs hr hne hquiet

end Mesh

/-! ### A flood that arrives

Node 44 sends to node 0. Every other node gets its first copy in at most three hops. -/

/-- A copy that may be sent on. -/
def Msg.Brisk : Msg → Prop
  | .direct _ _ timeToLive _ => 1 < timeToLive
  | _ => False

/-- The connection between two nodes delivers a copy that may be sent on. -/
def Protocol.Label.Brisk (s : Protocol) : Protocol.Label → Prop
  | .deliver (.node x) b => ∃ f ∈ (s.wire (.node x) b).head?, f.packet.Brisk
  | _ => False

instance : (msg : Msg) → Decidable msg.Brisk
  | .send .. => inferInstanceAs (Decidable False)
  | .direct _ _ timeToLive _ => inferInstanceAs (Decidable (1 < timeToLive))
  | .inverse .. => inferInstanceAs (Decidable False)

instance (s : Protocol) : (l : Protocol.Label) → Decidable (l.Brisk s)
  | .client .. => inferInstanceAs (Decidable False)
  | .deliver .server _ => inferInstanceAs (Decidable False)
  | .deliver (.node x) b =>
    inferInstanceAs (Decidable (∃ f ∈ (s.wire (.node x) b).head?, f.packet.Brisk))

/-- All nodes between the sender and the receiver have taken a copy. -/
structure Protocol.Covered (sender receiver : UInt8) (id : UInt16) (s : Protocol) : Prop where
  spreading : Spreading sender receiver id s
  taken : ∀ b, InMesh b → b = sender ∨ b = receiver ∨ (s.core b).messages.Taken id

theorem Spreading.taken_step (h : Spreading sender receiver id s) (hs : InMesh sender)
    (hr : InMesh receiver) (hne : receiver ≠ sender)
    (hfed : ¬ ∃ f ∈ (s.wire src b).head?, (s.core b).Starves b f.packet)
    (htaken : (s.core a).messages.Taken id) :
    ((s.step (.deliver src b)).core a).messages.Taken id := by
  cases hwire : s.wire src b with
  | nil => rwa [Protocol.step_deliver_nil hwire]
  | cons f fs =>
    cases src with
    | server =>
      rw [h.server] at hwire
      cases hwire
    | node x =>
      rw [hwire] at hfed
      obtain ⟨hrelays, -⟩ := h.relays hs hr hne (hwire ▸ List.mem_cons_self)
        fun hstarves => hfed ⟨f, rfl, hstarves⟩
      exact Protocol.forall_core_deliver
        (P := fun a c => (s.core a).messages.Taken id → c.messages.Taken id) hwire hrelays.taken
        (fun _ _ ha => ha) a htaken

theorem EnRoute.direct_of_brisk {tables : UInt8 → RoutingTable}
    (h : EnRoute sender receiver id tables x b msg) (hbrisk : msg.Brisk) :
    ∃ k, 1 < k ∧ msg = .direct sender receiver k id := by
  cases h with
  | @direct k => exact ⟨k, hbrisk, rfl⟩
  | inverse => exact hbrisk.elim

theorem EnRoute.fades {tables : UInt8 → RoutingTable}
    (h : EnRoute sender receiver id tables x b msg) : msg.Fades := by
  cases h with
  | direct => exact .direct ..
  | inverse hpos => exact .inverse _ _ _ hpos

/-- A node that gets a copy that may be sent on does not starve, and has then taken one. -/
theorem Spreading.taken_of_brisk (h : Spreading sender receiver id s) (hs : InMesh sender)
    (hr : InMesh receiver) (hne : receiver ≠ sender)
    (hbrisk : (Protocol.Label.deliver (.node x) b).Brisk s) :
    (¬ ∃ f ∈ (s.wire (.node x) b).head?, (s.core b).Starves b f.packet) ∧
      ((s.step (.deliver (.node x) b)).core b).messages.Taken id := by
  obtain ⟨f, hfront, hmore⟩ := hbrisk
  obtain ⟨fs, hwire⟩ := List.head?_eq_some_iff.mp hfront
  have hf : f ∈ s.wire (.node x) b := hwire ▸ List.mem_cons_self
  obtain ⟨k, hk, hpacket⟩ := (h.flights x b f hf).direct_of_brisk hmore
  have hfed : ¬ (s.core b).Starves b f.packet := by
    rw [hpacket]
    exact fun hstarves => absurd hstarves.1 (by grind)
  refine ⟨?_, ?_⟩
  · rintro ⟨g, hg, hstarves⟩
    rw [hwire] at hg
    cases hg
    exact hfed hstarves
  · rw [Protocol.core_deliver hwire, Function.update_self]
    exact (h.relays hs hr hne hf hfed).2.1 k (by grind) hpacket

namespace Mesh

/-- Nodes that get copies that may be sent on have then taken one. -/
theorem steps_brisk {hops : List (UInt8 × UInt8)}
    (hrefines : Refines (start pids fds id).server.children m s)
    (h : Spreading sender receiver id s) (hs : InMesh sender) (hr : InMesh receiver)
    (hne : receiver ≠ sender)
    (hbrisk : Steps Protocol.step (fun s l => l.Brisk s) s (Protocol.handed hops)) :
    Steps (step z) (fun m l => l.Healthy ∧ ¬ l.Starved m) m (handed hops) ∧
      (run (step z) m (handed hops)).Matches (start pids fds id).server.children fun s' =>
        Spreading sender receiver id s' ∧ ∀ a,
          (s.core a).messages.Taken id ∨ a ∈ hops.map Prod.snd → (s'.core a).messages.Taken id := by
  induction hops generalizing m s with
  | nil => exact ⟨trivial, s, hrefines, h, fun a ha => ha.resolve_right List.not_mem_nil⟩
  | cons hop hops ih =>
    obtain ⟨hfirst, hrest⟩ := hbrisk
    obtain ⟨hfed, htook⟩ := h.taken_of_brisk hs hr hne hfirst
    have hkept : ∀ {a}, (s.core a).messages.Taken id →
        ((s.step (.deliver (.node hop.1) hop.2)).core a).messages.Taken id := fun ha =>
      h.taken_step hs hr hne hfed ha
    have hhealthy : (Label.hand (.node hop.1) hop.2).Healthy := Label.healthy_hand _ _
    obtain ⟨hsteps, s', hrefines', hspreading, hall⟩ := ih (refines_step hrefines hhealthy)
      (spreading_deliver h hs hr hne fun f hf hstarves => hfed ⟨f, hf, hstarves⟩) hrest
    refine ⟨⟨⟨hhealthy, ?_⟩, hsteps⟩, s', hrefines', hspreading, fun a ha => hall a ?_⟩
    · exact fun hstarved => hfed (hrefines.starved_iff.mp hstarved)
    · obtain ha | ha := ha
      · exact .inl (hkept ha)
      · obtain rfl | ha := List.mem_cons.mp ha
        · exact .inl htook
        · exact .inr ha

end Mesh

theorem Protocol.Covered.not_starves (h : s.Covered sender receiver id) :
    ¬ ∃ f ∈ (s.wire src b).head?, (s.core b).Starves b f.packet := by
  rintro ⟨f, hf, hstarves⟩
  have hmem : f ∈ s.wire src b := List.mem_of_mem_head? hf
  have hb := (h.spreading.near.flights src b f hmem).inMesh
  cases src with
  | server =>
    rw [h.spreading.server] at hmem
    cases hmem
  | node x =>
    have hroute := h.spreading.flights x b f hmem
    generalize f.packet = msg at hroute hstarves
    cases hroute with
    | direct hpos hlt hback =>
      obtain ⟨-, hfrom, hto, hnone⟩ := hstarves
      obtain heq | heq | htaken := h.taken b hb
      · exact hfrom heq
      · exact hto heq
      · exact hnone htaken
    | inverse hpos hle hon => exact hstarves

theorem covered_deliver (hs : InMesh sender) (hr : InMesh receiver) (hne : receiver ≠ sender)
    (h : s.Covered sender receiver id) :
    (s.step (.deliver src b)).Covered sender receiver id where
  spreading := spreading_deliver h.spreading hs hr hne fun f hf hstarves =>
    h.not_starves ⟨f, hf, hstarves⟩
  taken a ha := by
    obtain heq | heq | htaken := h.taken a ha
    · exact .inl heq
    · exact .inr (.inl heq)
    · exact .inr (.inr (h.spreading.taken_step hs hr hne h.not_starves htaken))

theorem Spreading.fades (h : Spreading sender receiver id s) {f : Flight Msg}
    (hf : f ∈ s.wire (.node x) b) : f.packet.Fades ∧ InMesh b :=
  ⟨(h.flights x b f hf).fades, (h.near.flights (.node x) b f hf).inMesh⟩

/-- What comes from the server is no copy. -/
theorem Refines.not_starved_server (h : Refines children m s) :
    ¬ (Mesh.Label.deliver .server (.node b) env senv).Starved m := by
  rw [h.starved_iff]
  rintro ⟨f, hf, hstarves⟩
  obtain ⟨-, receiver, id, hpacket⟩ := h.near.flights .server b f (List.mem_of_mem_head? hf)
  rw [hpacket] at hstarves
  exact hstarves

namespace Mesh

theorem steps_asked (sender receiver : UInt8) :
    Steps (step z) (fun m l => l.Healthy ∧ ¬ l.Starved m) (start pids fds id)
      (asked sender receiver) := by
  have hask : (Label.ask sender receiver).Healthy := Label.healthy_ask sender receiver
  have hrefines := refines_step (z := z) (refines_start pids fds id) hask
  exact ⟨⟨hask, not_false⟩, ⟨Label.healthy_hand _ _, hrefines.not_starved_server⟩, trivial⟩

theorem Matches.steps_covered (h : m.Matches (start pids fds id).server.children
      (Protocol.Covered sender receiver id)) (hs : InMesh sender) (hr : InMesh receiver)
    (hne : receiver ≠ sender) {ls : List Label} (hls : ∀ l ∈ ls, l.Delivers ∧ l.Healthy) :
    Steps (step z) (fun m l => l.Healthy ∧ ¬ l.Starved m) m ls := by
  have hall : Steps (step z) (fun _ l => l.Delivers ∧ l.Healthy) m ls :=
    steps_of_forall fun _ => hls
  have hsteps := hall.with_invariant
    (Matches (start pids fds id).server.children (Protocol.Covered sender receiver id))
    (fun _ _ hl hm => matches_step hm hl.1 hl.2 fun _ _ _ _ _ _ _ => covered_deliver hs hr hne) h
  refine hsteps.imp fun m' l ⟨⟨s, hrefines, hcovered⟩, hdelivers, hhealthy⟩ => ⟨hhealthy, ?_⟩
  cases l with
  | client fd packet senv => exact hdelivers.elim
  | deliver src dst env senv =>
    cases dst with
    | server => exact not_false
    | node addr => exact fun hstarved => hcovered.not_starves (hrefines.starved_iff.mp hstarved)

/-- The first copies that nodes get of a message from node 44, one for each of them. -/
def spread : List (UInt8 × UInt8) :=
  [(44, [14, 22, 23, 24, 25, 26, 32, 33, 34, 35, 36, 41, 42, 43, 45, 46, 47, 52, 53, 54, 55, 56, 62,
      63, 64, 65, 66, 74]),
    (14, [2, 3, 4, 5, 6, 11, 12, 13, 15, 16, 17]), (22, [1, 10, 20, 21, 30, 31, 40]), (24, [27]),
    (25, [7, 28, 37]), (26, [8, 18, 29, 38, 48]), (32, [50, 51]), (35, [57]), (36, [39, 58]),
    (41, [60, 61, 71]), (42, [72]), (43, [73]), (45, [67, 75]), (46, [49, 68, 76]),
    (47, [59, 69, 77]), (52, [70, 82]), (53, [83]), (54, [84]), (55, [85]), (56, [78, 86]),
    (62, [80, 81, 92]), (63, [93]), (64, [94]), (65, [87, 95]), (66, [88, 96]), (6, [9]),
    (16, [19]), (57, [79]), (60, [90]), (61, [91]), (67, [89, 97]), (68, [98]),
    (69, [99])].flatMap fun (x, bs) => bs.map fun b => (x, b)

theorem arrived_run_spread :
    ∃ ls : List Label,
      (run (step .stored) (start (fun _ => 1) descriptors 1) (.ask 44 0 :: ls)).Quiet ∧
      (run (step .stored) (start (fun _ => 1) descriptors 1) (.ask 44 0 :: ls)).Arrived 44 0 1 := by
  have hs : InMesh 44 := by decide
  have hr : InMesh 0 := by decide
  have hne : (0 : UInt8) ≠ 44 := by decide
  have hrefines : Refines (start (fun _ => 1) descriptors 1).server.children
      (run (step .stored) (start (fun _ => 1) descriptors 1) (asked 44 0))
      (run Protocol.step (.start 1) [.client 44 0, .deliver .server 44]) :=
    refines_run ((steps_asked 44 0).imp fun _ _ h => h.1)
  have hbrisk : Steps Protocol.step (fun s l => l.Brisk s)
      (run Protocol.step (.start 1) [.client 44 0, .deliver .server 44])
      (Protocol.handed spread) := by decide +kernel
  obtain ⟨hspread, s, hrefines, hspreading, htaken⟩ :=
    steps_brisk hrefines (spreading_start hs hne) hs hr hne hbrisk
  have hnodes : ∀ i : Fin nodeCount, UInt8.ofNat i = 44 ∨ UInt8.ofNat i = 0 ∨
      UInt8.ofNat i ∈ spread.map Prod.snd := by decide +kernel
  have hcovered : ∀ b, InMesh b → b = 44 ∨ b = 0 ∨ (s.core b).messages.Taken 1 := by
    intro b hb
    have hcase := hnodes ⟨b.toNat, hb⟩
    rw [UInt8.ofNat_toNat] at hcase
    obtain heq | heq | hmem := hcase
    · exact .inl heq
    · exact .inr (.inl heq)
    · exact .inr (.inr (htaken b (.inr hmem)))
  have hmatches : (run (step .stored) (run (step .stored) (start (fun _ => 1) descriptors 1)
      (asked 44 0)) (handed spread)).Matches (start (fun _ => 1) descriptors 1).server.children
      (Protocol.Covered 44 0 1) := ⟨s, hrefines, hspreading, hcovered⟩
  obtain ⟨ls, hls, hquiet, -⟩ := hmatches.exists_quiet .stored
    (fun _ _ _ h => covered_deliver hs hr hne h) (fun _ h => h.spreading.server)
    fun _ h _ _ _ hf => h.spreading.fades hf
  have hrest := hmatches.steps_covered (z := .stored) hs hr hne hls
  have hdelivers : ∀ l ∈ Label.hand .server 44 :: (handed spread ++ ls), l.Delivers := by
    intro l hl
    obtain rfl | hl := List.mem_cons.mp hl
    · trivial
    · exact (List.mem_append.mp hl).elim (delivers_handed l) fun hl => (hls l hl).1
  have hquiet : (run (step .stored) (start (fun _ => 1) descriptors 1)
      (.ask 44 0 :: .hand .server 44 :: (handed spread ++ ls))).Quiet := by
    rwa [← List.cons_append, ← List.cons_append, run_append]
  refine ⟨.hand .server 44 :: (handed spread ++ ls), hquiet, ?_⟩
  exact arrived_run .stored (fun _ => 1) descriptors 1 5 ⟨44, 0, 0, 0, .blank .delivery, 0⟩ .quiet
    (.hand .server 44 :: (handed spread ++ ls)) hs hr hne hdelivers
    (steps_append.mpr ⟨steps_asked 44 0, steps_append.mpr ⟨hspread, hrest⟩⟩) hquiet

end Mesh

/-! ### A flood that does not

Node 99 sends to node 0 by a long way. All around node 0 get their first copies with a time to live
of one. -/

/-- Only copies are on their way, and the receiver has got nothing. -/
structure Protocol.Astray (sender receiver : UInt8) (id : UInt16) (s : Protocol) : Prop where
  near : s.Local
  server : ∀ b, s.wire .server b = []
  flights : ∀ x b, ∀ f ∈ s.wire (.node x) b, ∃ k, f.packet = .direct sender receiver k id
  unheard : (s.core receiver).handled = []

/-- The nodes around the receiver have all sent on to no effect. -/
structure Protocol.Doomed (sender receiver : UInt8) (id : UInt16) (s : Protocol) : Prop
    extends s.Astray sender receiver id where
  around : ∀ b, Adjacent b receiver → (s.core b).messages.Taken id
  spent : ∀ x, ∀ f ∈ s.wire (.node x) receiver, ∀ k,
    f.packet = .direct sender receiver k id → k ≤ 0

/-- What a node makes of a copy that it does not answer. -/
structure Forwards (sender receiver : UInt8) (id : UInt16) (b : UInt8) (c : Core)
    (r : Core × List (UInt8 × Msg)) : Prop where
  handled : r.1.handled = c.handled
  taken : c.messages.Taken id → r.1.messages.Taken id
  out : ∀ o ∈ r.2, ∃ k, o.2 = .direct sender receiver k id
  once : ∀ o ∈ r.2, b ≠ receiver ∧ ¬ c.messages.Taken id ∧ Adjacent b o.1

/-- A node that is not the receiver, or gets a copy that is spent, at most sends it on. -/
theorem forwards_direct {c : Core} (hb : b ≠ receiver ∨ k ≤ 0) :
    Forwards sender receiver id b c (c.direct b x sender receiver k id) := by
  obtain ⟨-, heq⟩ | ⟨hpos, -, hto, -⟩ | ⟨-, hnone, hto, heq⟩ :=
    Core.direct_cases b c x sender receiver k id
  · rw [heq]
    exact ⟨rfl, fun h => h, nofun, nofun⟩
  · obtain hne | hspent := hb
    · exact absurd hto.symm hne
    · grind
  · rw [heq]
    exact ⟨rfl, fun _ => taken_takeIn, fun o ho => ⟨_, (adjacent_of_mem_flood ho).2⟩,
      fun o ho => ⟨Ne.symm hto, hnone, (adjacent_of_mem_flood ho).1⟩⟩

/-- As long as the receiver gets nothing but copies that are spent, only copies are sent. -/
theorem astray_deliver (h : s.Astray sender receiver id)
    (hb : b ≠ receiver ∨ ∀ f ∈ s.wire (.node x) b, ∀ k,
      f.packet = .direct sender receiver k id → k ≤ 0) :
    (s.step (.deliver (.node x) b)).Astray sender receiver id ∧
      (∀ a, (s.core a).messages.Taken id →
        ((s.step (.deliver (.node x) b)).core a).messages.Taken id) ∧
      ∀ y a, ∀ f ∈ (s.step (.deliver (.node x) b)).wire (.node y) a, f ∈ s.wire (.node y) a ∨
        y ≠ receiver ∧ ¬ (s.core y).messages.Taken id ∧ Adjacent y a := by
  cases hwire : s.wire (.node x) b with
  | nil =>
    rw [Protocol.step_deliver_nil hwire]
    exact ⟨h, fun _ ha => ha, fun _ _ _ hf => .inl hf⟩
  | cons f fs =>
    have hf : f ∈ s.wire (.node x) b := hwire ▸ List.mem_cons_self
    obtain ⟨k, hpacket⟩ := h.flights x b f hf
    have hforwards : Forwards sender receiver id b (s.core b)
        ((s.core b).react b x f.packet) := by
      rw [hpacket]
      exact forwards_direct (hb.imp_right fun hspent => hspent f hf k hpacket)
    refine ⟨⟨local_step h.near _, Protocol.server_deliver h.server, fun y a g hg => ?_, ?_⟩,
      Protocol.forall_core_deliver
        (P := fun a c => (s.core a).messages.Taken id → c.messages.Taken id) hwire hforwards.taken
        fun _ _ ha => ha, fun y a g hg => ?_⟩
    · obtain hold | ⟨-, hsent, -⟩ := Protocol.mem_wire_deliver hwire hg
      · exact h.flights y a g hold
      · exact hforwards.out (a, g.packet) hsent
    · apply Protocol.forall_core_deliver (P := fun a c => a = receiver → c.handled = []) hwire
      · rintro rfl
        exact hforwards.handled.trans h.unheard
      · intro a _ ha
        exact ha ▸ h.unheard
      · rfl
    · obtain hold | ⟨hsrc, hsent, -⟩ := Protocol.mem_wire_deliver hwire hg
      · exact .inl hold
      · cases hsrc
        exact .inr (hforwards.once (a, g.packet) hsent)

theorem doomed_deliver (h : s.Doomed sender receiver id) :
    (s.step (.deliver src b)).Doomed sender receiver id := by
  cases src with
  | server => rwa [Protocol.step_deliver_nil (h.server b)]
  | node x =>
    have hb : b ≠ receiver ∨ ∀ f ∈ s.wire (.node x) b, ∀ k,
        f.packet = .direct sender receiver k id → k ≤ 0 := by
      by_cases hto : b = receiver
      · exact .inr (hto ▸ h.spent x)
      · exact .inl hto
    obtain ⟨hastray, htaken, hwire⟩ := astray_deliver h.toAstray hb
    refine ⟨hastray, fun a ha => htaken a (h.around a ha), fun y g hg => ?_⟩
    obtain hold | ⟨-, hnone, hadj⟩ := hwire y receiver g hg
    · exact h.spent y g hold
    · exact absurd (h.around y hadj) hnone

theorem Protocol.Doomed.fades (h : s.Doomed sender receiver id) {f : Flight Msg}
    (hf : f ∈ s.wire (.node x) b) : f.packet.Fades ∧ InMesh b := by
  obtain ⟨k, hpacket⟩ := h.flights x b f hf
  rw [hpacket]
  exact ⟨.direct .., (h.near.flights (.node x) b f hf).inMesh⟩

theorem astray_start (hs : InMesh sender) (hne : receiver ≠ sender) :
    (run Protocol.step (.start id) [.client sender receiver, .deliver .server sender]).Astray
      sender receiver id := by
  obtain ⟨hnear, hcore, hmem⟩ := @started sender receiver id hs hne _ rfl
  refine ⟨hnear, fun b => ?_, fun x b f hf => ?_, ?_⟩
  · rw [List.eq_nil_iff_forall_not_mem]
    exact fun f hf => Peer.noConfusion (hmem.mp hf).1
  · exact ⟨_, (adjacent_of_mem_flood (hmem.mp hf).2.1).2⟩
  · rw [hcore]
    rfl

/-- As long as nothing is delivered to the receiver, only copies are sent. -/
theorem astray_run (h : s.Astray sender receiver id) {hops : List (UInt8 × UInt8)}
    (hto : ∀ hop ∈ hops, hop.2 ≠ receiver) :
    (run Protocol.step s (Protocol.handed hops)).Astray sender receiver id := by
  have hall : Steps Protocol.step (fun _ l => ∃ x b, l = .deliver (.node x) b ∧ b ≠ receiver) s
      (Protocol.handed hops) := by
    refine steps_of_forall fun _ l hl => ?_
    obtain ⟨hop, hmem, rfl⟩ := List.mem_map.mp hl
    exact ⟨_, _, rfl, hto hop hmem⟩
  refine hall.invariant _ (fun s l hl hs => ?_) h
  obtain ⟨x, b, rfl, hb⟩ := hl
  exact (astray_deliver hs (.inl hb)).1

namespace Mesh

/-- A long way from node 99 to the nodes around node 0. -/
def snake : List (UInt8 × UInt8) :=
  [(99, 98), (98, 97), (97, 96), (96, 95), (95, 94), (94, 93), (93, 92), (92, 91), (91, 81),
    (81, 82), (82, 83), (83, 73), (73, 63), (63, 53), (53, 43), (43, 44), (44, 33), (33, 13),
    (33, 31), (13, 1), (13, 2), (13, 3), (13, 10), (13, 11), (13, 12), (13, 21), (13, 22),
    (31, 20), (31, 30)]

theorem doomed_snake :
    (run Protocol.step (run Protocol.step (.start 1) [.client 99 0, .deliver .server 99])
      (Protocol.handed snake)).Doomed 99 0 1 := by
  have hfar : (snake.all fun hop => hop.2 != 0) = true := by decide
  have hto : ∀ hop ∈ snake, hop.2 ≠ 0 := fun hop hhop =>
    bne_iff_ne.mp (List.all_eq_true.mp hfar hop hhop)
  have hastray := astray_run (@astray_start 1 99 0 (by decide) (by decide)) hto
  have haround : ((fillNeighborsPort 0).all fun port => ((run Protocol.step (run Protocol.step
      (.start 1) [.client 99 0, .deliver .server 99]) (Protocol.handed snake)).core
        (nodeAddr port)).messages.Taken 1 ∧
      ∀ f ∈ (run Protocol.step (run Protocol.step (.start 1)
          [.client 99 0, .deliver .server 99]) (Protocol.handed snake)).wire
            (.node (nodeAddr port)) 0,
        f.packet = .direct 99 0 0 1) = true := by
    decide +kernel
  generalize run Protocol.step (run Protocol.step (.start 1)
    [.client 99 0, .deliver .server 99]) (Protocol.handed snake) = s at hastray haround ⊢
  have hnear : ∀ b, Adjacent b 0 → (s.core b).messages.Taken 1 ∧
      ∀ f ∈ s.wire (.node b) 0, f.packet = .direct 99 0 0 1 := by
    intro b hadj
    have hport := of_decide_eq_true (List.all_eq_true.mp haround (nodePort b) hadj.symm)
    rwa [nodeAddr_nodePort] at hport
  refine ⟨hastray, fun b hadj => (hnear b hadj).1, fun b f hf k hpacket => ?_⟩
  have hspent := (hnear b (hastray.near.flights (.node b) 0 f hf)).2 f hf
  rw [hspent] at hpacket
  cases hpacket
  decide

/-- The flood from node 99 ends before node 0 has got the message. -/
theorem arrived_run_starved :
    ¬ ∀ (z : Zlib) (pids : UInt8 → Int32) (fds : UInt8 ↪ Int) (id : UInt16) (fd : Int)
      (packet : NodePacket) (senv : ServerEnv) (ls : List Label), InMesh packet.senderAddr →
      InMesh packet.receiverAddr → packet.receiverAddr ≠ packet.senderAddr →
      (∀ l ∈ ls, l.Delivers) →
      Steps (step z) (fun _ l => l.Healthy) (start pids fds id) (.client fd packet senv :: ls) →
      (run (step z) (start pids fds id) (.client fd packet senv :: ls)).Quiet →
        (run (step z) (start pids fds id) (.client fd packet senv :: ls)).Arrived
          packet.senderAddr packet.receiverAddr id := by
  intro hclaim
  have hasked : Steps (step .stored) (fun _ l => l.Healthy) (start (fun _ => 1) descriptors 1)
      (asked 99 0) := steps_of_forall fun _ => healthy_asked
  have hdoomed : (run (step .stored) (run (step .stored) (start (fun _ => 1) descriptors 1)
      (asked 99 0)) (handed snake)).Matches (start (fun _ => 1) descriptors 1).server.children
      (Protocol.Doomed 99 0 1) := ⟨_, refines_handed (refines_run hasked) snake, doomed_snake⟩
  obtain ⟨ls, hls, hquiet, s, hrefines, hlost⟩ := hdoomed.exists_quiet .stored
    (fun _ _ _ h => doomed_deliver h) (fun _ h => h.server) fun _ h _ _ _ hf => h.fades hf
  have hdelivers : ∀ l ∈ Label.hand .server 99 :: (handed snake ++ ls), l.Delivers ∧ l.Healthy := by
    intro l hl
    obtain rfl | hl := List.mem_cons.mp hl
    · exact ⟨trivial, Label.healthy_hand _ _⟩
    · exact (List.mem_append.mp hl).elim (fun hl => ⟨delivers_handed l hl, healthy_handed l hl⟩)
        (hls l)
  have hsame : Label.client 5 ⟨99, 0, 0, 0, .blank .delivery, 0⟩ .quiet ::
      .hand .server 99 :: (handed snake ++ ls) = asked 99 0 ++ handed snake ++ ls := rfl
  have harrived := hclaim .stored (fun _ => 1) descriptors 1 5
    ⟨99, 0, 0, 0, .blank .delivery, 0⟩ .quiet (.hand .server 99 :: (handed snake ++ ls))
    (by decide) (by decide) (by decide) (fun l hl => (hdelivers l hl).1)
    ⟨Label.healthy_ask 99 0, steps_of_forall fun _ l hl => (hdelivers l hl).2⟩
  rw [hsame, run_append, run_append] at harrived
  have hhandled := (harrived hquiet).handled
  rw [hrefines.core, hlost.unheard] at hhandled
  cases hhandled

end Mesh

end MeshNet
