import MeshNet.Node.Hops

/-!
# The travel of an inverse packet

An inverse packet goes from node to node, each of which names the next one by a table that may
change in the meantime. The packet counts down its time to live, but none of the nodes looks at it.
-/

namespace MeshNet
open Library

/-- The packet that a node sends on in place of an inverse packet. -/
def NodePacket.onward (p : NodePacket) (addr : UInt8) : NodePacket :=
  NodePacket.renewed { p with localSenderAddr := addr, timeToLive := p.timeToLive - 1 }

/-- An inverse packet until it is dropped or back, and how often it was sent on. -/
structure Travel where
  packet : Option NodePacket
  forwards : Nat

namespace Travel

/-- The packet leaves its receiver. -/
def leaving (p : NodePacket) : Travel := ⟨some p, 0⟩

/-- The packet arrives at a node in any state, whose part of the network does as it likes. -/
def step (w : Travel) (i : Env × Node) : Travel :=
  match w.packet with
  | none => w
  | some p =>
    let p := p.received i.1.heap
    let r := handleNodeRouteInverse i.1 i.2 p
    if r.2.link.trace.length = i.2.link.trace.length then ⟨none, w.forwards⟩
    else ⟨if r.1 = true then some (p.onward i.2.addr) else none, w.forwards + 1⟩

/-- The packet is sent on `TTL` times at most, and what is computed from its time to live fits an
`int8_t`. -/
def Bounded (w : Travel) (i : Env × Node) : Prop :=
  ((w.step i).forwards : Int) ≤ ttl.toInt ∧ ∀ p ∈ w.packet,
    (-128 ≤ ttl.toInt - p.timeToLive.toInt + 1 ∧ ttl.toInt - p.timeToLive.toInt + 1 ≤ 127) ∧
      -128 ≤ p.timeToLive.toInt - 1 ∧ p.timeToLive.toInt - 1 ≤ 127

/-- The packet has no time to live left, and the node is not its sender and has a route to it. -/
def Overdue (w : Travel) (i : Env × Node) : Prop :=
  ∃ p ∈ w.packet, p.timeToLive ≤ 0 ∧ i.2.forwarding (p.received i.1.heap) ≠ none

instance (w : Travel) (i : Env × Node) : Decidable (w.Overdue i) :=
  inferInstanceAs (Decidable (∃ p ∈ w.packet, _))

/-- What is left of the time to live is what the packet was not sent on for. -/
structure Counts (w : Travel) : Prop where
  le : (w.forwards : Int) ≤ ttl.toInt
  left : ∀ p ∈ w.packet, p.timeToLive.toInt = ttl.toInt - w.forwards

end Travel

variable {env : Env} {n : Node} {p : NodePacket} {w : Travel} {i : Env × Node}

/-- A node sends an inverse packet on along its route to the sender, or does nothing. -/
theorem trace_handleNodeRouteInverse (env : Env) (n : Node) (p : NodePacket) :
    (n.forwarding p = none ∧ (handleNodeRouteInverse env n p).2.link.trace = n.link.trace) ∨
      ∃ f, n.forwarding p = some f ∧ (handleNodeRouteInverse env n p).2.link.trace =
        n.link.trace ++ [.send (nodePort f.next)
          ((createPacket .routeInverse .node (p.onward n.addr)).sent env.stack)
          (handleNodeRouteInverse env n p).1] := by
  unfold handleNodeRouteInverse Node.forwarding
  dsimp only
  generalize n.routing.learnInverse p.receiverAddr p.localSenderAddr p.timeToLive = routing
  by_cases hcrc : isValidCrc p = true
  · by_cases haddr : p.senderAddr = n.addr
    · left
      simp [hcrc, haddr]
    · by_cases hnext : routing.nextAddr p.senderAddr = noAddr
      · left
        simp [hcrc, haddr, hnext]
      · right
        refine ⟨⟨.inverseForwarded, p.senderAddr, _⟩, if_pos ⟨hcrc, haddr, hnext⟩, ?_⟩
        simp only [hcrc, Bool.not_true, Bool.false_eq_true, if_false, haddr, hnext]
        have hsent : (sendPacket env n.link (routing.nextAddr p.senderAddr) .routeInverse
            (p.onward n.addr)).2.trace = n.link.trace ++ [.send _ _ _] :=
          Link.getConnAndSend_trace
        split
        · rename_i hfail
          have hfalse : (sendPacket env n.link (routing.nextAddr p.senderAddr) .routeInverse
              (p.onward n.addr)).1 = false := Bool.not_eq_true' _ |>.mp hfail
          exact hsent.trans (congrArg (fun ok => n.link.trace ++ [Event.send _ _ ok]) hfalse)
        · rename_i hok
          have htrue : (sendPacket env n.link (routing.nextAddr p.senderAddr) .routeInverse
              (p.onward n.addr)).1 = true := by
            rw [Bool.not_eq_true', Bool.not_eq_false] at hok
            exact hok
          exact hsent.trans (congrArg (fun ok => n.link.trace ++ [Event.send _ _ ok]) htrue)
  · left
    simp [hcrc]

namespace Travel

theorem step_of_stopped {p : NodePacket} (hw : w.packet = some p)
    (hstop : i.2.forwarding (p.received i.1.heap) = none) : w.step i = ⟨none, w.forwards⟩ := by
  obtain ⟨-, htrace⟩ | ⟨f, hf, -⟩ :=
    trace_handleNodeRouteInverse i.1 i.2 (p.received i.1.heap)
  · simp only [step, hw, htrace, if_true]
  · rw [hstop] at hf
    cases hf

theorem step_of_forwarded {p : NodePacket} (hw : w.packet = some p)
    (hforward : i.2.forwarding (p.received i.1.heap) ≠ none) :
    (w.step i).forwards = w.forwards + 1 ∧
      ∀ q ∈ (w.step i).packet, q = (p.received i.1.heap).onward i.2.addr := by
  obtain ⟨hnone, -⟩ | ⟨f, -, htrace⟩ :=
    trace_handleNodeRouteInverse i.1 i.2 (p.received i.1.heap)
  · exact absurd hnone hforward
  · have hlength : (handleNodeRouteInverse i.1 i.2 (p.received i.1.heap)).2.link.trace.length ≠
        i.2.link.trace.length := by simp [htrace]
    simp only [step, hw, hlength, if_false, true_and]
    intro q hq
    split at hq
    · exact (Option.some.inj hq).symm
    · cases hq

theorem counts_leaving (hp : p.timeToLive = ttl) : (leaving p).Counts := by
  refine ⟨(by decide : (0 : Int) ≤ 20), fun q hq => ?_⟩
  cases hq
  rw [hp]
  rfl

theorem overdue_iff {p : NodePacket} (hw : w.packet = some p) :
    w.Overdue i ↔ p.timeToLive.toInt ≤ 0 ∧ i.2.forwarding (p.received i.1.heap) ≠ none := by
  constructor
  · rintro ⟨q, hq, hdead, hforward⟩
    cases hw.symm.trans hq
    exact ⟨Int8.le_iff_toInt_le.mp hdead, hforward⟩
  · exact fun h => ⟨p, hw, Int8.le_iff_toInt_le.mpr h.1, h.2⟩

theorem bounded_iff (h : w.Counts) : w.Bounded i ↔ ¬ w.Overdue i := by
  obtain ⟨hle, hleft⟩ := h
  unfold Bounded
  rw [toInt_ttl] at hle hleft ⊢
  cases hw : w.packet with
  | none =>
    have hsame : w.step i = w := by simp only [step, hw]
    rw [hsame]
    refine iff_of_true ⟨hle, nofun⟩ ?_
    rintro ⟨p, hp, -⟩
    cases hw.symm.trans hp
  | some p =>
    have hp := hleft p hw
    rw [overdue_iff hw]
    simp only [Option.mem_def, Option.some.injEq, forall_eq']
    by_cases hforward : i.2.forwarding (p.received i.1.heap) = none
    · rw [step_of_stopped hw hforward]
      refine iff_of_true ⟨hle, ?_⟩ fun h => h.2 hforward
      omega
    · rw [(step_of_forwarded hw hforward).1, and_iff_left hforward]
      omega

theorem counts_step (hbounded : w.Bounded i) (h : w.Counts) : (w.step i).Counts := by
  have hdue := (bounded_iff h).mp hbounded
  refine ⟨hbounded.1, fun q hq => ?_⟩
  cases hw : w.packet with
  | none =>
    simp only [step, hw] at hq
    cases hq
  | some p =>
    by_cases hforward : i.2.forwarding (p.received i.1.heap) = none
    · rw [step_of_stopped hw hforward] at hq
      cases hq
    · obtain ⟨hcount, hpacket⟩ := step_of_forwarded hw hforward
      have hpos : 0 < p.timeToLive.toInt := by
        by_contra hdead
        exact hdue ⟨p, hw, Int8.le_iff_toInt_le.mpr (Int.not_lt.mp hdead), hforward⟩
      have hnext : q.timeToLive = p.timeToLive - 1 := by rw [hpacket q hq]; rfl
      rw [hnext, toInt_sub_one hpos, h.left p hw, hcount]
      omega

/-- An inverse packet is sent on `TTL` times at most, and its numbers fit, if and only if it never
comes to a node that would send it on when it has no time to live left. -/
theorem bounded_run_iff (p : NodePacket) (hp : p.timeToLive = ttl) (visits : List (Env × Node)) :
    Steps step Bounded (leaving p) visits ↔
      Steps step (fun w i => ¬ w.Overdue i) (leaving p) visits :=
  steps_congr Counts (fun _ _ => bounded_iff) (fun _ _ => counts_step) (counts_leaving hp)

/-- The answer to a message from node 0 leaves node 5. -/
def answer : NodePacket :=
  NodePacket.renewed ⟨0, 5, 5, ttl, ⟨.known .delivery, 0, 0, 7, 0, .zero, 0⟩, 0⟩

/-- The nodes 1 and 2 name each other on the way to node 0, and the packet goes round. -/
def circling (k : Nat) : List (Env × Node) :=
  (List.range k).map fun i =>
    if i % 2 = 0 then
      (.zeroed .ideal, { Node.start 1 with routing := RoutingTable.fillDefault.setAddr 0 2 1 })
    else (.zeroed .ideal, { Node.start 2 with routing := RoutingTable.fillDefault.setAddr 0 1 1 })

theorem bounded_run_iff_circling :
    Steps step Bounded (leaving answer) (circling 2) ↔
      Steps step (fun w i => ¬ w.Overdue i) (leaving answer) (circling 2) :=
  bounded_run_iff answer rfl (circling 2)

/-- Between two nodes that name each other the packet is sent on for the twenty-first time. -/
theorem bounded_run_circling :
    ¬ ∀ (p : NodePacket) (visits : List (Env × Node)), p.timeToLive = ttl →
      Steps step Bounded (leaving p) visits := by
  intro hclaim
  have hdue := (steps_congr Counts (fun _ _ => bounded_iff) (fun _ _ => counts_step)
    (counts_leaving rfl)).mp (hclaim answer (circling 21) rfl)
  exact absurd hdue (by decide +kernel)

end Travel

end MeshNet
