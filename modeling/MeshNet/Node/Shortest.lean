import Mathlib.Data.Int.ConditionallyCompleteOrder
import Mathlib.Data.List.MinMax
import Mathlib.Order.ConditionallyCompleteLattice.Basic
import MeshNet.Node.Acknowledge

/-!
# The shortest of the ways that are offered

Every flooded packet that is not a duplicate offers a way to its sender, and the table keeps the
shortest. A duplicate is not looked at, however short its way was.
-/

namespace MeshNet
open Library

/-- The entry that a packet offers for its sender. -/
def NodePacket.offer (p : NodePacket) : RoutingNode :=
  ⟨p.localSenderAddr, RoutingTable.newMetric p.timeToLive⟩

/-- The offers for one destination. -/
def offers (ps : List NodePacket) (d : UInt8) : List RoutingNode :=
  (ps.filter fun p => p.senderAddr == d).map NodePacket.offer

/-- What the table holds for a destination that there is a route to. -/
def RoutingTable.entry (t : RoutingTable) (d : UInt8) : Option RoutingNode :=
  if t.nextAddr d = noAddr then none else some (t.get d)

/-- A node handles a flooded packet. -/
def routeDirect (z : Zlib) (n : Node) (i : Env × NodePacket) : Node :=
  (handleNodeRouteDirect z i.1 n i.2).2

/-- The route to the sender is deleted, since an inverse packet cannot be sent along it. -/
def Deletes (n : Node) (i : Env × NodePacket) : Prop :=
  ∃ f ∈ n.answering i.2, ¬ n.link.Reaches i.1.net n.link.trace.length (nodePort f.next)

instance (n : Node) (i : Env × NodePacket) : Decidable (Deletes n i) :=
  inferInstanceAs (Decidable (∃ f ∈ n.answering i.2, _))

/-- The packet is valid, has no more time to live than a flood starts with, and names the node that
sent it on. -/
structure NodePacket.Offers (p : NodePacket) : Prop where
  valid : p.Valid
  le : p.timeToLive ≤ ttl
  next : p.localSenderAddr ≠ noAddr

/-- A node and the packets that it did not take for duplicates. -/
structure Heard where
  node : Node
  taken : List NodePacket

namespace Heard

def start (addr : UInt8) : Heard := ⟨.start addr, []⟩

def step (z : Zlib) (w : Heard) (i : Env × NodePacket) : Heard where
  node := routeDirect z w.node i
  taken :=
    if i.2.Valid ∧ ¬ w.node.messages.Taken i.2.appPayload.id then w.taken ++ [i.2] else w.taken

theorem run_node (addr : UInt8) (is : List (Env × NodePacket)) (z : Zlib) :
    (run (step z) (start addr) is).node = run (routeDirect z) (.start addr) is := by
  unfold start
  generalize Node.start addr = n, ([] : List NodePacket) = ps
  induction is generalizing n ps with
  | nil => rfl
  | cons i is ih => exact ih _ _

/-- For every destination the table has the first of the shortest ways that were offered. -/
def Shortest (w : Heard) : Prop :=
  ∀ d, InMesh d → w.node.routing.entry d = (offers w.taken d).argmin (·.metric.toInt)

end Heard

/-- The packets out of `is` that a node does not take for duplicates. -/
def takenPackets (z : Zlib) (addr : UInt8) (is : List (Env × NodePacket)) : List NodePacket :=
  (run (Heard.step z) (.start addr) is).taken

/-- The entry has the least distance that a packet from `d` has travelled, and the next hop is the
one that such a packet came from. -/
structure Wins (ps : List NodePacket) (d : UInt8) (entry : RoutingNode) : Prop where
  least : IsLeast {m : Int | ∃ p ∈ ps, p.senderAddr = d ∧
    m = ttl.toInt - p.timeToLive.toInt + 1} entry.metric.toInt
  attained : ∃ p ∈ ps, p.senderAddr = d ∧ p.localSenderAddr = entry.addr ∧
    entry.metric.toInt = ttl.toInt - p.timeToLive.toInt + 1

variable {z : Zlib} {env : Env} {n : Node} {p : NodePacket} {t : RoutingTable} {d : UInt8}

/-! ## One offer -/

theorem offers_concat (ps : List NodePacket) (p : NodePacket) (d : UInt8) :
    offers (ps ++ [p]) d = if p.senderAddr = d then offers ps d ++ [p.offer] else offers ps d := by
  unfold offers
  rw [List.filter_append, List.map_append]
  split <;> simp [*]

theorem NodePacket.Offers.metric (h : p.Offers) :
    (RoutingTable.newMetric p.timeToLive).toInt = ttl.toInt - p.timeToLive.toInt + 1 ∧
      0 < RoutingTable.newMetric p.timeToLive := by
  have hpos : (0 : Int8).toInt < p.timeToLive.toInt := Int8.lt_iff_toInt_lt.mp h.valid.1
  have hle : p.timeToLive.toInt ≤ ttl.toInt := Int8.le_iff_toInt_le.mp h.le
  rw [toInt_ttl] at hle ⊢
  have hmetric := toInt_newMetric (Int.le_of_lt hpos) hle
  refine ⟨by omega, Int8.lt_iff_toInt_lt.mpr ?_⟩
  rw [hmetric]
  change (0 : Int) < _
  omega

/-- The table compares a new offer with the one it has. -/
theorem entry_learnDirect (h : p.Offers) (hd : InMesh d) :
    (t.learnDirect p.senderAddr p.localSenderAddr p.timeToLive).entry d =
      if p.senderAddr = d then
        match t.entry d with
        | none => some p.offer
        | some old => if p.offer.metric.toInt < old.metric.toInt then some p.offer else some old
      else t.entry d := by
  have hpos := h.metric.2
  obtain ⟨heq, hkept⟩ | ⟨heq, -, hbetter⟩ :=
    RoutingTable.learnDirect_cases (t := t) p.senderAddr p.localSenderAddr p.timeToLive
  · obtain ⟨hroute, hle⟩ := hkept.resolve_left (by grind)
    rw [heq]
    split
    · rename_i hsame
      subst hsame
      have hnot : ¬ p.offer.metric.toInt < (t.get p.senderAddr).metric.toInt :=
        Int.not_lt.mpr (Int8.le_iff_toInt_le.mp hle)
      simp [RoutingTable.entry, hroute, hnot]
    · rfl
  · rw [heq]
    unfold RoutingTable.entry
    simp only [RoutingTable.nextAddr_eq, RoutingTable.get_setAddr] at hbetter ⊢
    by_cases hsame : p.senderAddr = d
    · subst hsame
      have hin : p.senderAddr.toNat < nodeCount := hd
      simp only [hin, and_self, if_true, if_neg h.next]
      by_cases hroute : (t.get p.senderAddr).addr = noAddr
      · simp [hroute, NodePacket.offer]
      · have hlt := Int8.lt_iff_toInt_lt.mp (hbetter.resolve_left hroute)
        simp [hroute, NodePacket.offer, hlt]
    · have hne : ¬ (d = p.senderAddr ∧ p.senderAddr.toNat < nodeCount) := fun h => hsame h.1.symm
      simp only [hne, hsame, if_false]

/-- Where no route is deleted a packet that is taken is only learnt from. -/
theorem routing_handleNodeRouteDirect (hv : p.Valid) (htaken : ¬ n.messages.Taken p.appPayload.id)
    (hkeep : ¬ Deletes n (env, p)) :
    (handleNodeRouteDirect z env n p).2.routing = (n.takeIn p).routing := by
  rw [handleNodeRouteDirect_of_not_taken hv htaken]
  split
  · rename_i haddr
    by_cases hanswered : (n.takeIn p).messages.Answered p.appPayload.id
    · rw [routeDirectHandleDelivered_of_answered hv.2 hanswered]
    · rw [routeDirectHandleDelivered_of_not_answered hv.2 hanswered]
      dsimp only
      split
      · rfl
      · rename_i hroute
        have hreach : n.link.Reaches env.net n.link.trace.length
            (nodePort ((n.takeIn p).routing.nextAddr p.senderAddr)) := by
          by_contra hfail
          exact hkeep ⟨⟨.inverseStarted, p.senderAddr, _⟩,
            if_pos ⟨hv, htaken, haddr, hanswered, hroute⟩, hfail⟩
        have hsent : (sendPacket env (n.takeIn p).link
            ((n.takeIn p).routing.nextAddr p.senderAddr) .routeInverse
            (p.inverse (n.takeIn p).addr)).1 = true := getConnAndSend_fst_iff.mpr hreach
        simp only [hsent, Bool.not_true, Bool.false_eq_true, if_false]
        rfl
  · rfl

namespace Heard

variable {w : Heard} {i : Env × NodePacket}

theorem shortest_start (addr : UInt8) : (start addr).Shortest := fun d _ => by
  simp [start, Node.start, RoutingTable.entry, offers]

theorem shortest_step (h : i.2.Offers) (hkeep : ¬ Deletes w.node i) (hw : w.Shortest) :
    (w.step z i).Shortest := by
  intro d hd
  unfold step routeDirect
  by_cases htaken : w.node.messages.Taken i.2.appPayload.id
  · rw [handleNodeRouteDirect_of_taken htaken]
    simpa [htaken] using hw d hd
  · simp only [h.valid, htaken, not_false_eq_true, and_self, if_true, offers_concat]
    rw [routing_handleNodeRouteDirect h.valid htaken hkeep, Node.takeIn]
    dsimp only
    rw [entry_learnDirect h hd, hw d hd]
    split
    · rw [List.argmin_concat]
      cases (offers w.taken d).argmin (·.metric.toInt) <;> rfl
    · rfl

theorem offers_step (h : i.2.Offers) (hw : ∀ p ∈ w.taken, p.Offers) :
    ∀ p ∈ (w.step z i).taken, p.Offers := by
  unfold step
  dsimp only
  split
  · intro p hp
    obtain hmem | rfl := List.mem_append.mp hp |>.imp_right List.mem_singleton.mp
    · exact hw p hmem
    · exact h
  · exact hw

theorem steps_of_node {P : Node → Env × NodePacket → Prop} {is : List (Env × NodePacket)}
    (h : Steps (routeDirect z) P w.node is) : Steps (step z) (fun w i => P w.node i) w is := by
  induction is generalizing w with
  | nil => trivial
  | cons i is ih => exact ⟨h.1, ih h.2⟩

theorem wins_of_shortest (hw : w.Shortest) (hoffers : ∀ p ∈ w.taken, p.Offers) (hd : InMesh d)
    (hseen : ∃ p ∈ w.taken, p.senderAddr = d) : Wins w.taken d (w.node.routing.get d) := by
  have hmem : ∀ o, o ∈ offers w.taken d ↔ ∃ p ∈ w.taken, p.senderAddr = d ∧ p.offer = o := by
    simp [offers, and_assoc]
  have hentry := hw d hd
  cases hbest : (offers w.taken d).argmin (·.metric.toInt) with
  | none =>
    obtain ⟨p, hp, hsender⟩ := hseen
    have hoffer := (hmem p.offer).mpr ⟨p, hp, hsender, rfl⟩
    rw [List.argmin_eq_none.mp hbest] at hoffer
    cases hoffer
  | some best =>
    have hget : w.node.routing.get d = best := by
      rw [hbest, RoutingTable.entry] at hentry
      split at hentry
      · cases hentry
      · exact Option.some.inj hentry
    obtain ⟨p, hp, hsender, rfl⟩ := (hmem best).mp (List.argmin_mem hbest)
    rw [hget]
    have hmetric : p.offer.metric.toInt = ttl.toInt - p.timeToLive.toInt + 1 :=
      (hoffers p hp).metric.1
    refine ⟨⟨⟨p, hp, hsender, hmetric⟩, ?_⟩, ⟨p, hp, hsender, rfl, hmetric⟩⟩
    rintro m ⟨q, hq, hsender', hm⟩
    have hmetric' : q.offer.metric.toInt = ttl.toInt - q.timeToLive.toInt + 1 :=
      (hoffers q hq).metric.1
    rw [hm, ← hmetric']
    exact List.le_of_mem_argmin (f := fun o : RoutingNode => o.metric.toInt)
      ((hmem q.offer).mpr ⟨q, hq, hsender', rfl⟩) hbest

end Heard

/-- As long as no route is deleted, the shortest way among those of the packets that are not taken
for duplicates is in the table. -/
theorem wins_run (z : Zlib) (addr : UInt8) (is : List (Env × NodePacket))
    (hoffers : ∀ i ∈ is, i.2.Offers)
    (hkeep : Steps (routeDirect z) (fun n i => ¬ Deletes n i) (.start addr) is) (d : UInt8)
    (hd : InMesh d) (hseen : ∃ p ∈ takenPackets z addr is, p.senderAddr = d) :
    Wins (takenPackets z addr is) d ((run (routeDirect z) (.start addr) is).routing.get d) := by
  have hinvariant : (run (Heard.step z) (.start addr) is).Shortest ∧
      ∀ p ∈ takenPackets z addr is, p.Offers := by
    have hsteps := steps_and.mpr ⟨steps_of_forall (P := fun _ i => i.2.Offers)
      (fun _ => hoffers), Heard.steps_of_node (w := .start addr) hkeep⟩
    exact hsteps.invariant (fun w => w.Shortest ∧ ∀ p ∈ w.taken, p.Offers)
      (fun _ _ hi hw => ⟨Heard.shortest_step hi.1 hi.2 hw.1, Heard.offers_step hi.1 hw.2⟩)
      ⟨Heard.shortest_start addr, nofun⟩
  have hwins := Heard.wins_of_shortest hinvariant.1 hinvariant.2 hd hseen
  rwa [Heard.run_node] at hwins

/-- A packet from node 1 to node 5 that the node `next` has sent on. -/
def offering (id : UInt16) (next : UInt8) (timeToLive : Int8) : Env × NodePacket :=
  (.zeroed .ideal,
    NodePacket.renewed ⟨1, 5, next, timeToLive, ⟨.known .delivery, 0, 0, id, 0, .zero, 0⟩, 0⟩)

theorem valid_offering {id : UInt16} {next : UInt8} {timeToLive : Int8} (hpos : 0 < timeToLive)
    (hle : timeToLive ≤ ttl) : (offering id next timeToLive).2.Valid ∧
      (offering id next timeToLive).2.timeToLive ≤ ttl :=
  ⟨⟨hpos, isValidCrc_renewed (Nat.zero_le _)⟩, hle⟩

theorem wins_run_offering :
    Wins (takenPackets .stored 2 [offering 8 3 18, offering 9 1 20]) 1
      ((run (routeDirect .stored) (.start 2)
        [offering 8 3 18, offering 9 1 20]).routing.get 1) := by
  have hfirst : (offering 8 3 18).2.Offers :=
    let h := valid_offering (by decide) (by decide)
    ⟨h.1, h.2, by decide⟩
  have hsecond : (offering 9 1 20).2.Offers :=
    let h := valid_offering (by decide) (by decide)
    ⟨h.1, h.2, by decide⟩
  exact wins_run .stored 2 [offering 8 3 18, offering 9 1 20]
    (List.forall_mem_cons.mpr ⟨hfirst, List.forall_mem_singleton.mpr hsecond⟩)
    (by decide +kernel) 1 (by decide) (by decide +kernel)

/-- A duplicate that has come by a shorter way is not looked at; and a packet that names no node
leaves the table as if there were no route, so that a longer way is taken up afterwards. -/
theorem wins_duplicate :
    (¬ ∀ (z : Zlib) (addr : UInt8) (is : List (Env × NodePacket)),
      (∀ i ∈ is, i.2.Valid ∧ i.2.timeToLive ≤ ttl) →
      Steps (routeDirect z) (fun n i => ¬ Deletes n i) (.start addr) is →
      ∀ d, InMesh d → (∃ p ∈ is.map Prod.snd, p.senderAddr = d) →
        Wins (is.map Prod.snd) d ((run (routeDirect z) (.start addr) is).routing.get d)) ∧
    ¬ ∀ (z : Zlib) (addr : UInt8) (is : List (Env × NodePacket)),
      (∀ i ∈ is, i.2.Valid ∧ i.2.timeToLive ≤ ttl) →
      Steps (routeDirect z) (fun n i => ¬ Deletes n i) (.start addr) is →
      ∀ d, InMesh d → (∃ p ∈ takenPackets z addr is, p.senderAddr = d) →
        Wins (takenPackets z addr is) d
          ((run (routeDirect z) (.start addr) is).routing.get d) := by
  constructor
  · intro hclaim
    have hwins := hclaim .stored 2 [offering 8 3 18, offering 8 1 20]
      (List.forall_mem_cons.mpr ⟨valid_offering (by decide) (by decide),
        List.forall_mem_singleton.mpr (valid_offering (by decide) (by decide))⟩)
      (by decide +kernel) 1 (by decide) ⟨_, List.mem_cons_self, rfl⟩
    have hle := hwins.least.2 ⟨(offering 8 1 20).2, by simp, rfl, rfl⟩
    exact absurd hle (by decide +kernel)
  · intro hclaim
    have hwins := hclaim .stored 2 [offering 8 noAddr 20, offering 9 3 18]
      (List.forall_mem_cons.mpr ⟨valid_offering (by decide) (by decide),
        List.forall_mem_singleton.mpr (valid_offering (by decide) (by decide))⟩)
      (by decide +kernel) 1 (by decide) (by decide +kernel)
    have hone : ∃ p ∈ takenPackets .stored 2 [offering 8 noAddr 20, offering 9 3 18],
        p.senderAddr = 1 ∧ 1 = ttl.toInt - p.timeToLive.toInt + 1 := by decide +kernel
    exact absurd (hwins.least.2 hone) (by decide +kernel)

end MeshNet
