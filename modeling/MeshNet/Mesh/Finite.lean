import Mathlib.Logic.Hydra
import MeshNet.Node.Direct

/-!
# Floods die out

Every flooded packet that is handled makes room for copies of itself with less time to live. Nothing
else is needed for a flood to end: not the neighbours, which may be any ports, and not the tables,
which may be any at every step.
-/

namespace MeshNet

/-- The copy of a packet that `node_essentials_broadcast_route` sends. -/
def NodePacket.flooded (p : NodePacket) (addr : UInt8) : NodePacket :=
  NodePacket.renewed { p with localSenderAddr := addr, timeToLive := p.timeToLive - 1 }

/-- `handle_node_route_direct` at a node with any neighbours, and the copies that it sends them. -/
def handleNodeRouteDirectOn (z : Zlib) (env : Env) (neighbors : List UInt16) (n : Node)
    (routePayload : NodePacket) : Bool × Node × List NodePacket :=
  if routePayload.timeToLive ≤ 0 then (true, n, [])
  else if !isValidCrc routePayload then (false, n, [])
  else
    let registered := registerMessage n.messages routePayload.appPayload.id
    if !registered.1 then (false, { n with messages := registered.2 }, [])
    else
      let n := { n with
        messages := registered.2
        routing := n.routing.learnDirect routePayload.senderAddr routePayload.localSenderAddr
          routePayload.timeToLive }
      if routePayload.receiverAddr = n.addr then
        (true, (routeDirectHandleDelivered z env n routePayload).2, [])
      else
        let packet := { routePayload with localSenderAddr := n.addr }
        (true, { n with link := n.link.broadcastRoute env neighbors packet false },
          neighbors.map fun _ => routePayload.flooded n.addr)

/-- One of the packets in flight is handled by some node, and some of the copies that this node
sends get through. -/
def FloodStep (s s' : Multiset NodePacket) : Prop :=
  ∃ (z : Zlib) (env : Env) (neighbors : List UInt16) (n : Node) (p : NodePacket)
    (rest copies : Multiset NodePacket), s = p ::ₘ rest ∧
      copies ≤ (handleNodeRouteDirectOn z env neighbors n (p.received env.heap)).2.2 ∧
      s' = rest + copies

/-- The hops that a packet has before it. -/
def NodePacket.hopsLeft (p : NodePacket) : Nat := p.timeToLive.toInt.toNat

variable {z : Zlib} {env : Env} {neighbors : List UInt16} {n : Node} {p q : NodePacket} {l : Link}

/-- With its own neighbours the node does what it does. -/
theorem handleNodeRouteDirectOn_neighbors (z : Zlib) (env : Env) (n : Node) (p : NodePacket) :
    ((handleNodeRouteDirectOn z env n.neighbors n p).1,
      (handleNodeRouteDirectOn z env n.neighbors n p).2.1) = handleNodeRouteDirect z env n p := by
  unfold handleNodeRouteDirectOn handleNodeRouteDirect
  dsimp only
  split_ifs <;> rfl

theorem trace_sendAll (net : Net) (ports : List UInt16) (bytes : List UInt8) :
    ∃ oks : List Bool, oks.length = ports.length ∧ (l.sendAll net ports bytes).trace =
      l.trace ++ ports.zipWith (fun port ok => .send port bytes ok) oks := by
  induction ports generalizing l with
  | nil => exact ⟨[], rfl, (List.append_nil _).symm⟩
  | cons port ports ih =>
    obtain ⟨oks, hlength, htrace⟩ := ih (l := (l.getConnAndSend net port bytes).2)
    refine ⟨(l.getConnAndSend net port bytes).1 :: oks, congrArg (· + 1) hlength, ?_⟩
    refine htrace.trans ?_
    rw [Link.getConnAndSend_trace, List.append_assoc]
    rfl

/-- The copies are those that are written to the neighbours, one for each. -/
theorem trace_handleNodeRouteDirectOn
    (hcopies : (handleNodeRouteDirectOn z env neighbors n p).2.2 ≠ []) :
    (handleNodeRouteDirectOn z env neighbors n p).2.2 =
        neighbors.map (fun _ => p.flooded n.addr) ∧
      ∃ oks : List Bool, oks.length = neighbors.length ∧
        (handleNodeRouteDirectOn z env neighbors n p).2.1.link.trace =
          n.link.trace ++ neighbors.zipWith (fun port ok => .send port
            ((createPacket .routeDirect .node (p.flooded n.addr)).sent env.stack) ok) oks := by
  unfold handleNodeRouteDirectOn at hcopies ⊢
  dsimp only at hcopies ⊢
  split_ifs at hcopies ⊢
  · exact absurd rfl hcopies
  · exact absurd rfl hcopies
  · exact absurd rfl hcopies
  · exact absurd rfl hcopies
  · exact ⟨rfl, trace_sendAll _ _ _⟩

/-- A copy has fewer hops before it than the packet it is a copy of. -/
theorem hopsLeft_lt (hq : q ∈ (handleNodeRouteDirectOn z env neighbors n p).2.2) :
    q.hopsLeft < p.hopsLeft := by
  have hcopies := (trace_handleNodeRouteDirectOn (List.ne_nil_of_mem hq)).1
  have hlive : 0 < p.timeToLive.toInt := by
    by_contra hdead
    have hle : p.timeToLive ≤ 0 := Int8.le_iff_toInt_le.mpr (Int.not_lt.mp hdead)
    simp [handleNodeRouteDirectOn, hle] at hq
  rw [hcopies] at hq
  obtain ⟨-, -, rfl⟩ := List.mem_map.mp hq
  have hsub : (p.flooded n.addr).timeToLive.toInt = p.timeToLive.toInt - 1 := toInt_sub_one hlive
  unfold NodePacket.hopsLeft
  omega

theorem hopsLeft_received (heap : Message) (p : NodePacket) :
    (p.received heap).hopsLeft = p.hopsLeft := by
  unfold NodePacket.hopsLeft NodePacket.received
  rfl

theorem cutExpand_of_floodStep {s s' : Multiset NodePacket} (h : FloodStep s s') :
    Relation.CutExpand (InvImage (· < ·) NodePacket.hopsLeft) s' s := by
  obtain ⟨z, env, neighbors, n, p, rest, copies, rfl, hcopies, rfl⟩ := h
  refine ⟨copies, p, fun q hq => ?_, ?_⟩
  · have hmem := Multiset.mem_coe.mp (Multiset.mem_of_le hcopies hq)
    have hlt := hopsLeft_lt hmem
    rw [hopsLeft_received] at hlt
    exact hlt
  · rw [← Multiset.singleton_add]
    ac_rfl

/-- A sequence of steps comes to an end, whatever the neighbours and the tables are. -/
theorem flood_finite (s : Nat → Multiset NodePacket) : ∃ k, ¬ FloodStep (s k) (s (k + 1)) := by
  by_contra hsteps
  push Not at hsteps
  have hwf : WellFounded (Relation.CutExpand (InvImage (· < ·) NodePacket.hopsLeft)) :=
    WellFounded.cutExpand (InvImage.wf NodePacket.hopsLeft Nat.lt_wfRel.wf)
  exact (wellFounded_iff_isEmpty_descending_chain.mp hwf).false
    ⟨s, fun k => cutExpand_of_floodStep (hsteps k)⟩

end MeshNet
