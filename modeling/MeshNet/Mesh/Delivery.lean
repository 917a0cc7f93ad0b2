import MeshNet.Mesh.Endings
import MeshNet.Mesh.Loops

/-!
# What clients can rely on

Among any other requests and deliveries on a healthy network, a broadcast comes to the apps of all
neighbours and a unicast to those of one neighbour, with as many deliveries as it takes at most,
and a message to one node comes to no app twice.
-/

namespace MeshNet
open Library
open Mesh (asks)

namespace Mesh

/-- The connections deliver in turns. -/
def Call.inTurns (n : Nat) : Call :=
  .hand (if n / 256 % 257 = 256 then .server else .node (UInt8.ofNat (n / 256 % 257)))
    (UInt8.ofNat (n % 256))

/-- Node 5 is asked for a message amid other requests and deliveries. -/
theorem Call.healthy_amid {req : Request} (hreq : req.CarriesMessage) :
    ∀ i ∈ [Call.ask .broadcast 4 0] ++ Call.ask req 5 7 :: [Call.hand .server 5], i.Healthy := by
  intro i hi
  simp only [List.cons_append, List.nil_append, List.mem_cons, List.not_mem_nil, or_false] at hi
  obtain rfl | rfl | rfl := hi
  · exact healthy_ask (.inr (.inl rfl)) 4 0
  · exact healthy_ask hreq 5 7
  · exact healthy_hand .server 5

theorem asks_inTurns (before : List Call) (n : Nat) :
    asks before + asks ((List.range n).map Call.inTurns) = asks before := by
  rw [Nat.add_eq_left, asks, List.countP_eq_zero]
  intro i hi
  obtain ⟨j, -, rfl⟩ := List.mem_map.mp hi
  exact Bool.false_ne_true

theorem Call.recurs_inTurns (src : Peer) (b : UInt8) :
    Recurs Call.inTurns (Call.Delivers src (.node b)) := by
  intro n
  have hb : b.toNat < 256 := b.toNat_lt
  have hturn : ∃ t < 257, ∀ j, j / 256 % 257 = t → j % 256 = b.toNat →
      (Call.inTurns j).Delivers src (.node b) := by
    cases src with
    | server =>
      refine ⟨256, by omega, fun j hj hjb => ?_⟩
      exact ⟨if_pos hj, by rw [hjb, UInt8.ofNat_toNat]⟩
    | node a =>
      have ha : a.toNat < 256 := a.toNat_lt
      refine ⟨a.toNat, by omega, fun j hj hjb => ?_⟩
      exact ⟨by rw [if_neg (by omega), hj, UInt8.ofNat_toNat], by rw [hjb, UInt8.ofNat_toNat]⟩
  obtain ⟨t, ht, hdelivers⟩ := hturn
  refine ⟨65792 - n % 65792 + (256 * t + b.toNat), hdelivers _ ?_ ?_⟩ <;> omega

end Mesh

section
variable {z : Zlib} {pids : UInt8 → Int32} {fds : UInt8 ↪ Int} {id : UInt16}
  {before after : List Mesh.Call} {calls : Nat → Mesh.Call} {fd : Int} {packet : NodePacket}
  {senv : ServerEnv}

/-! ## Safety -/

/-- A broadcast comes once at most to the apps of each neighbour of its sender, and to no others;
when nothing of it is under way any more, it has come to all of them. -/
theorem appCalls_broadcast
    (h : ∀ i ∈ before ++ .client .broadcast fd packet senv :: after, i.Healthy)
    (hfew : asks before + asks after < 65536) (hs : InMesh packet.senderAddr) (b : UInt8) :
    let m := run (Mesh.call z) (Mesh.start pids fds id)
      (before ++ .client .broadcast fd packet senv :: after)
    let k := id + UInt16.ofNat (asks before)
    (m.node b).link.appCalls k ≤ (if Adjacent packet.senderAddr b then 1 else 0) ∧
      (m.Clear k → (m.node b).link.appCalls k = if Adjacent packet.senderAddr b then 1 else 0) := by
  intro m k
  obtain ⟨hbefore, hrest⟩ := List.forall_mem_append.mp h
  obtain ⟨hask, hafter⟩ := List.forall_mem_cons.mp hrest
  obtain ⟨n, ⟨s, hoffers, hcast⟩, -⟩ :=
    broadcasting_run z pids fds id hbefore hask hafter hfew hs
  rw [hoffers.appCalls]
  refine ⟨hcast.handled_le b, fun hclear => ?_⟩
  rw [hcast.eq_zero (hoffers.clear hclear)] at hcast
  exact hcast.handled b

theorem appCalls_broadcast_amid :
    let m := run (Mesh.call .stored) (Mesh.start (fun _ => 0) Mesh.descriptors 0)
      ([.ask .broadcast 4 0] ++ .ask .broadcast 5 7 :: [.hand .server 5])
    let k := 0 + UInt16.ofNat (asks [.ask .broadcast 4 0])
    (m.node 6).link.appCalls k ≤ (if Adjacent 5 6 then 1 else 0) ∧
      (m.Clear k → (m.node 6).link.appCalls k = if Adjacent 5 6 then 1 else 0) := by
  have hhealthy := Mesh.Call.healthy_amid (.inr (.inl rfl))
  exact appCalls_broadcast hhealthy (by decide) (by decide) 6

/-- A unicast comes to the apps of at most one node, once, and that is a neighbour of its sender;
when nothing of it is under way any more, it has come to one. -/
theorem appCalls_unicast (packet : NodePacket)
    (h : ∀ i ∈ before ++ .client .unicast fd packet senv :: after, i.Healthy)
    (hfew : asks before + asks after < maxMessageData) (hs : InMesh packet.senderAddr) :
    let m := run (Mesh.call z) (Mesh.start pids fds id)
      (before ++ .client .unicast fd packet senv :: after)
    let k := id + UInt16.ofNat (asks before)
    ∃ w, Adjacent packet.senderAddr w ∧ (m.node w).link.appCalls k ≤ 1 ∧
      (∀ b, b ≠ w → (m.node b).link.appCalls k = 0) ∧
      (m.Clear k → (m.node w).link.appCalls k = 1) := by
  intro m k
  obtain ⟨hbefore, hrest⟩ := List.forall_mem_append.mp h
  obtain ⟨hask, hafter⟩ := List.forall_mem_cons.mp hrest
  obtain ⟨n, ⟨s, hoffers, hcontest, -⟩, -⟩ :=
    contesting_run z pids fds id hbefore hask hafter hfew hs
  obtain ⟨w, hw, hle, hother, hend⟩ := hcontest.handled hs
  refine ⟨w, hw, ?_, fun b hb => ?_, fun hclear => ?_⟩ <;> rw [hoffers.appCalls]
  · exact hle
  · exact hother b hb
  · exact hend (hcontest.eq_zero hs (hoffers.clear hclear))

theorem appCalls_unicast_amid :
    let m := run (Mesh.call .stored) (Mesh.start (fun _ => 0) Mesh.descriptors 0)
      ([.ask .broadcast 4 0] ++ .ask .unicast 5 7 :: [.hand .server 5])
    let k := 0 + UInt16.ofNat (asks [.ask .broadcast 4 0])
    ∃ w, Adjacent 5 w ∧ (m.node w).link.appCalls k ≤ 1 ∧
      (∀ b, b ≠ w → (m.node b).link.appCalls k = 0) ∧
      (m.Clear k → (m.node w).link.appCalls k = 1) := by
  have hhealthy := Mesh.Call.healthy_amid (.inr (.inr rfl))
  exact appCalls_unicast ⟨5, 7, 0, 0, .blank .delivery, 0⟩ hhealthy (by decide) (by decide)

/-- A message to one node comes once at most to the apps of its receiver, and to no others. -/
theorem appCalls_send
    (h : ∀ i ∈ before ++ .client .send fd packet senv :: after, i.Healthy)
    (hfew : asks before + asks after < maxMessageData) (b : UInt8) :
    ((run (Mesh.call z) (Mesh.start pids fds id)
      (before ++ .client .send fd packet senv :: after)).node b).link.appCalls
        (id + UInt16.ofNat (asks before)) ≤ if b = packet.receiverAddr then 1 else 0 := by
  obtain ⟨hbefore, hrest⟩ := List.forall_mem_append.mp h
  obtain ⟨hask, hafter⟩ := List.forall_mem_cons.mp hrest
  obtain ⟨s, hoffers, hposted⟩ := posted_run z pids fds id hbefore hask hafter hfew
  rw [hoffers.appCalls]
  exact hposted.handled b

theorem appCalls_send_amid :
    ((run (Mesh.call .stored) (Mesh.start (fun _ => 0) Mesh.descriptors 0)
      ([.ask .broadcast 4 0] ++ .ask .send 5 7 :: [.hand .server 5])).node 7).link.appCalls
        (0 + UInt16.ofNat (asks [.ask .broadcast 4 0])) ≤ if (7 : UInt8) = 7 then 1 else 0 := by
  have hhealthy := Mesh.Call.healthy_amid (.inl rfl)
  exact appCalls_send hhealthy (by decide) 7

/-! ## Work -/

/-- No more than 29 deliveries are about a broadcast, whatever happens besides. -/
theorem deliveries_broadcast
    (h : ∀ i ∈ before ++ .client .broadcast fd packet senv :: after, i.Healthy)
    (hfew : asks before + asks after < 65536) (hs : InMesh packet.senderAddr) :
    countSteps (Mesh.call z) (Mesh.Concerns (id + UInt16.ofNat (asks before)))
      (run (Mesh.call z) (Mesh.start pids fds id)
        (before ++ [.client .broadcast fd packet senv])) after ≤ 29 := by
  obtain ⟨hbefore, hrest⟩ := List.forall_mem_append.mp h
  obtain ⟨hask, hafter⟩ := List.forall_mem_cons.mp hrest
  obtain ⟨n, -, hcount⟩ := broadcasting_run z pids fds id hbefore hask hafter hfew hs
  have := length_neighbours_le packet.senderAddr
  omega

theorem deliveries_broadcast_amid :
    countSteps (Mesh.call .stored) (Mesh.Concerns (0 + UInt16.ofNat (asks [.ask .broadcast 4 0])))
      (run (Mesh.call .stored) (Mesh.start (fun _ => 0) Mesh.descriptors 0)
        ([.ask .broadcast 4 0] ++ [.ask .broadcast 5 7])) [.hand .server 5] ≤ 29 := by
  have hhealthy := Mesh.Call.healthy_amid (.inr (.inl rfl))
  exact deliveries_broadcast hhealthy (by decide) (by decide)

/-- No more than 58 deliveries are about a unicast. -/
theorem deliveries_unicast
    (h : ∀ i ∈ before ++ .client .unicast fd packet senv :: after, i.Healthy)
    (hfew : asks before + asks after < maxMessageData) (hs : InMesh packet.senderAddr) :
    countSteps (Mesh.call z) (Mesh.Concerns (id + UInt16.ofNat (asks before)))
      (run (Mesh.call z) (Mesh.start pids fds id)
        (before ++ [.client .unicast fd packet senv])) after ≤ 58 := by
  obtain ⟨hbefore, hrest⟩ := List.forall_mem_append.mp h
  obtain ⟨hask, hafter⟩ := List.forall_mem_cons.mp hrest
  obtain ⟨n, -, hcount⟩ := contesting_run z pids fds id hbefore hask hafter hfew hs
  have := length_neighbours_le packet.senderAddr
  omega

theorem deliveries_unicast_amid :
    countSteps (Mesh.call .stored) (Mesh.Concerns (0 + UInt16.ofNat (asks [.ask .broadcast 4 0])))
      (run (Mesh.call .stored) (Mesh.start (fun _ => 0) Mesh.descriptors 0)
        ([.ask .broadcast 4 0] ++ [.ask .unicast 5 7])) [.hand .server 5] ≤ 58 := by
  have hhealthy := Mesh.Call.healthy_amid (.inr (.inr rfl))
  exact deliveries_unicast hhealthy (by decide) (by decide)

/-! ## Liveness -/

/-- The mesh goes on with healthy calls and is not asked for more messages than it has numbers. -/
theorem listed_endless {j N : Nat} {m : Mesh}
    (h : Mesh.Issues (Mesh.start pids fds id).server.children id (j + 1) m)
    (hcalls : ∀ n, (calls n).Healthy)
    (hfew : ∀ n, j + asks ((List.range n).map calls) < N) (hN : N ≤ 65536) (n : Nat) :
    (endless (Mesh.call z) m calls n).Listed (issued id N) (id + UInt16.ofNat j) (calls n) := by
  have hhealthy : ∀ i ∈ (List.range n).map calls, i.Healthy := by
    intro i hi
    obtain ⟨l, -, rfl⟩ := List.mem_map.mp hi
    exact hcalls l
  have hissues := issues_run (z := z) hhealthy h
  have hnext := hfew (n + 1)
  rw [List.range_succ, List.map_append, List.map_singleton, asks, List.countP_append] at hnext
  rw [endless_eq_run]
  exact listed_issued (hcalls n) hissues (by omega) (by simp only [asks] at hnext ⊢; omega) hN

/-- The broadcast comes to its end and has then ended. -/
theorem exists_cast_ended (z : Zlib) (pids : UInt8 → Int32) (fds : UInt8 ↪ Int) (id : UInt16)
    (hbefore : ∀ i ∈ before, i.Healthy)
    (hask : (Mesh.Call.client .broadcast fd packet senv).Healthy)
    (hcalls : ∀ n, (calls n).Healthy)
    (hfair : ∀ src b, Recurs calls (Mesh.Call.Delivers src (.node b)))
    (hfew : ∀ n, asks before + asks ((List.range n).map calls) < 65536)
    (hs : InMesh packet.senderAddr) :
    ∃ n₀, ∀ n ≥ n₀, ∃ s, Offers (Mesh.start pids fds id).server.children
      (endless (Mesh.call z) ((run (Mesh.call z) (Mesh.start pids fds id) before).call z
        (.client .broadcast fd packet senv)) calls n) s ∧
      Broadcasting packet.senderAddr (id + UInt16.ofNat (asks before)) 0 s := by
  obtain ⟨s, hissued, hoffers, hcast⟩ := exists_broadcasting z pids fds id hbefore hask
    (Nat.lt_of_le_of_lt (Nat.le_add_right _ _) (hfew 0)) hs
  have hlisted := listed_endless (z := z) ⟨s, hoffers, hissued⟩ hcalls hfew (Nat.le_refl _)
  have hdown := countsDown_broadcasting (issued id 65536) packet.senderAddr
    (id + UInt16.ofNat (asks before))
  obtain ⟨n₀, hended⟩ := exists_ended hdown (fun _ _ h hclear => h.eq_zero hclear) hlisted hfair
    ⟨s, hoffers, hcast⟩
  exact ⟨n₀, fun n hn => still_ended hdown hlisted hended hn⟩

/-- The unicast comes to its end, and the node that wins it stays the same. -/
theorem exists_contest_ended (z : Zlib) (pids : UInt8 → Int32) (fds : UInt8 ↪ Int) (id : UInt16)
    (hbefore : ∀ i ∈ before, i.Healthy)
    (hask : (Mesh.Call.client .unicast fd packet senv).Healthy)
    (hcalls : ∀ n, (calls n).Healthy)
    (hfair : ∀ src b, Recurs calls (Mesh.Call.Delivers src (.node b)))
    (hfew : ∀ n, asks before + asks ((List.range n).map calls) < maxMessageData)
    (hs : InMesh packet.senderAddr) :
    ∃ n₀ w, Adjacent packet.senderAddr w ∧ ∀ n ≥ n₀, ∃ s,
      Offers (Mesh.start pids fds id).server.children
        (endless (Mesh.call z) ((run (Mesh.call z) (Mesh.start pids fds id) before).call z
          (.client .unicast fd packet senv)) calls n) s ∧
      Contesting packet.senderAddr (id + UInt16.ofNat (asks before)) 0 s ∧
      0 < (s.state w).handled.count (id + UInt16.ofNat (asks before)) := by
  have hsmall : maxMessageData ≤ 65536 := by decide
  have hfirst := hfew 0
  obtain ⟨s, hissued, hoffers, hcontest⟩ := exists_contesting z pids fds id hbefore hask
    (Nat.lt_of_le_of_lt (Nat.le_add_right _ _) hfirst) hs
  have hroom : s.Room (issued id maxMessageData) :=
    hissued.room (Nat.lt_of_le_of_lt (Nat.le_add_right _ _) hfirst) (Nat.le_refl _)
  have hlisted := listed_endless (z := z) ⟨s, hoffers, hissued⟩ hcalls hfew hsmall
  have hdown := countsDown_contesting (issued id maxMessageData) packet.senderAddr
    (id + UInt16.ofNat (asks before)) length_issued.le
  obtain ⟨n₀, s₀, hoffers₀, hended⟩ := exists_ended hdown
    (fun _ _ h hclear => h.1.eq_zero hs hclear) hlisted hfair ⟨s, hoffers, hcontest, hroom⟩
  obtain ⟨w, hw, -, -, hone⟩ := hended.1.handled hs
  have hdown' := hdown.and (J := fun s => 0 < (s.state w).handled.count (id + UInt16.ofNat
    (asks before))) fun s i _ hpos => Nat.lt_of_lt_of_le hpos (s.count_step_le i w)
  refine ⟨n₀, w, hw, fun n hn => ?_⟩
  obtain ⟨s', hoffers', hended', hpos⟩ := still_ended hdown' hlisted
    ⟨s₀, hoffers₀, hended, hone rfl ▸ Nat.zero_lt_one⟩ hn
  exact ⟨s', hoffers', hended'.1, hpos⟩

/-- If every connection goes on delivering, a broadcast comes to the apps of all neighbours of its
sender, once and to no others. -/
theorem broadcast_ends (hbefore : ∀ i ∈ before, i.Healthy)
    (hask : (Mesh.Call.client .broadcast fd packet senv).Healthy)
    (hcalls : ∀ n, (calls n).Healthy)
    (hfair : ∀ src b, Recurs calls (Mesh.Call.Delivers src (.node b)))
    (hfew : ∀ n, asks before + asks ((List.range n).map calls) < 65536)
    (hs : InMesh packet.senderAddr) :
    ∃ n₀, ∀ n ≥ n₀, ∀ b,
      ((endless (Mesh.call z) (run (Mesh.call z) (Mesh.start pids fds id)
        (before ++ [.client .broadcast fd packet senv])) calls n).node b).link.appCalls
          (id + UInt16.ofNat (asks before)) = if Adjacent packet.senderAddr b then 1 else 0 := by
  obtain ⟨n₀, hended⟩ := exists_cast_ended z pids fds id hbefore hask hcalls hfair hfew hs
  refine ⟨n₀, fun n hn b => ?_⟩
  obtain ⟨s, hoffers, hcast⟩ := hended n hn
  rw [run_append, run_cons, run_nil, hoffers.appCalls]
  exact hcast.handled b

theorem broadcast_ends_inTurns :
    ∃ n₀, ∀ n ≥ n₀, ∀ b,
      ((endless (Mesh.call .stored) (run (Mesh.call .stored)
        (Mesh.start (fun _ => 0) Mesh.descriptors 0) ([.ask .unicast 4 0] ++ [.ask .broadcast 5 0]))
          Mesh.Call.inTurns n).node b).link.appCalls (0 + UInt16.ofNat (asks [.ask .unicast 4 0])) =
        if Adjacent 5 b then 1 else 0 := by
  have hbefore := List.forall_mem_singleton.mpr (Mesh.Call.healthy_ask (.inr (.inr rfl)) 4 0)
  exact broadcast_ends hbefore (Mesh.Call.healthy_ask (.inr (.inl rfl)) 5 0)
    (fun n => Mesh.Call.healthy_hand _ _) Mesh.Call.recurs_inTurns
    (fun n => by rw [Mesh.asks_inTurns]; decide) (by decide)

/-- If every connection goes on delivering, a unicast comes to the apps of one neighbour of its
sender, once and to no others. -/
theorem unicast_ends (packet : NodePacket) (hbefore : ∀ i ∈ before, i.Healthy)
    (hask : (Mesh.Call.client .unicast fd packet senv).Healthy)
    (hcalls : ∀ n, (calls n).Healthy)
    (hfair : ∀ src b, Recurs calls (Mesh.Call.Delivers src (.node b)))
    (hfew : ∀ n, asks before + asks ((List.range n).map calls) < maxMessageData)
    (hs : InMesh packet.senderAddr) :
    ∃ n₀ w, Adjacent packet.senderAddr w ∧ ∀ n ≥ n₀, ∀ b,
      ((endless (Mesh.call z) (run (Mesh.call z) (Mesh.start pids fds id)
        (before ++ [.client .unicast fd packet senv])) calls n).node b).link.appCalls
          (id + UInt16.ofNat (asks before)) = if b = w then 1 else 0 := by
  obtain ⟨n₀, w, hw, hended⟩ := exists_contest_ended z pids fds id hbefore hask hcalls hfair hfew hs
  refine ⟨n₀, w, hw, fun n hn b => ?_⟩
  obtain ⟨s, hoffers, hcontest, hpos⟩ := hended n hn
  obtain ⟨w', -, -, hother, hone⟩ := hcontest.handled hs
  have hsame : w = w' := by
    by_contra hne
    rw [hother w hne] at hpos
    exact Nat.lt_irrefl 0 hpos
  rw [run_append, run_cons, run_nil, hoffers.appCalls, hsame]
  by_cases hb : b = w'
  · rw [if_pos hb, hb, hone rfl]
  · rw [if_neg hb, hother b hb]

theorem unicast_ends_inTurns :
    ∃ n₀ w, Adjacent 5 w ∧ ∀ n ≥ n₀, ∀ b,
      ((endless (Mesh.call .stored) (run (Mesh.call .stored)
        (Mesh.start (fun _ => 0) Mesh.descriptors 0) ([.ask .broadcast 4 0] ++ [.ask .unicast 5 0]))
          Mesh.Call.inTurns n).node b).link.appCalls
          (0 + UInt16.ofNat (asks [.ask .broadcast 4 0])) = if b = w then 1 else 0 := by
  have hbefore := List.forall_mem_singleton.mpr (Mesh.Call.healthy_ask (.inr (.inl rfl)) 4 0)
  exact unicast_ends ⟨5, 0, 0, 0, .blank .delivery, 0⟩ hbefore
    (Mesh.Call.healthy_ask (.inr (.inr rfl)) 5 0) (fun n => Mesh.Call.healthy_hand _ _)
    Mesh.Call.recurs_inTurns (fun n => by rw [Mesh.asks_inTurns]; decide) (by decide)

end

end MeshNet
