import MeshNet.Settings
import Mathlib.Data.List.Basic

/-!
# The routing table of a node

For every destination the address of the neighbour to go through and the length the route
was measured at. `noAddr` stands for no route. Destinations outside the mesh have no entry
and cannot be given one.
-/

namespace MeshNet

structure RoutingNode where
  addr : UInt8
  metric : Int8
  deriving DecidableEq

def RoutingNode.empty : RoutingNode := ⟨noAddr, 0⟩

structure RoutingTable where
  nodes : Vector RoutingNode nodeCount
  deriving DecidableEq

namespace RoutingTable

/-- `routing_table_fill_default`. -/
def fillDefault : RoutingTable := ⟨Vector.replicate nodeCount .empty⟩

/-- `routing_get`. -/
def get (t : RoutingTable) (destAddr : UInt8) : RoutingNode :=
  if h : destAddr.toNat < nodeCount then t.nodes[destAddr.toNat] else .empty

/-- `routing_next_addr`. -/
def nextAddr (t : RoutingTable) (destAddr : UInt8) : UInt8 :=
  if h : destAddr.toNat < nodeCount then t.nodes[destAddr.toNat].addr else noAddr

/-- `routing_set_addr`. -/
def setAddr (t : RoutingTable) (destAddr nextAddr : UInt8) (metric : Int8) : RoutingTable :=
  if h : destAddr.toNat < nodeCount then ⟨t.nodes.set destAddr.toNat ⟨nextAddr, metric⟩⟩ else t

/-- `routing_del`. -/
def del (t : RoutingTable) (destAddr : UInt8) : RoutingTable := t.setAddr destAddr noAddr 0

variable (t : RoutingTable) (d e n : UInt8) (m : Int8)

theorem nextAddr_eq : t.nextAddr d = (t.get d).addr := by
  unfold nextAddr get
  split <;> rfl

@[simp] theorem get_fillDefault : fillDefault.get d = .empty := by
  unfold get fillDefault
  split <;> simp

@[simp] theorem nextAddr_fillDefault : fillDefault.nextAddr d = noAddr := by
  rw [nextAddr_eq, get_fillDefault]
  rfl

theorem get_setAddr :
    (t.setAddr d n m).get e = if e = d ∧ d.toNat < nodeCount then ⟨n, m⟩ else t.get e := by
  unfold setAddr
  split
  · rename_i hd
    by_cases he : e = d
    · subst he
      simp [get, hd]
    · have hne : d.toNat ≠ e.toNat := fun h => he (UInt8.toNat_inj.mp h.symm)
      simp [get, he, hne]
  · rename_i hd
    simp [hd]

theorem get_of_le (h : nodeCount ≤ d.toNat) : t.get d = .empty := by
  unfold get
  rw [dif_neg (Nat.not_lt.mpr h)]

theorem get_del : (t.del d).get e = if e = d ∧ d.toNat < nodeCount then .empty else t.get e :=
  get_setAddr t d e noAddr 0

/-- A route leads to the address of a node: where there is one, the destination is in the
mesh. -/
theorem lt_nodeCount_of_nextAddr {t : RoutingTable} {d : UInt8} (h : t.nextAddr d ≠ noAddr) :
    d.toNat < nodeCount := by
  by_contra hd
  exact h (by rw [nextAddr_eq, get_of_le t d (Nat.not_lt.mp hd)]; rfl)

/-! ## Learning routes from packets

The two blocks that update the table are the same but for what they do with a route that is
already there. -/

/-- The distance a packet has travelled, in an `int8_t`. -/
def newMetric (timeToLive : Int8) : Int8 := ttl - timeToLive + 1

/-- `handle_node_route_direct` takes the packet's way back when it has none, or a longer one. -/
def learnDirect (t : RoutingTable) (senderAddr localSenderAddr : UInt8) (timeToLive : Int8) :
    RoutingTable :=
  if newMetric timeToLive > 0 then
    if t.nextAddr senderAddr = noAddr then
      t.setAddr senderAddr localSenderAddr (newMetric timeToLive)
    else if (t.get senderAddr).metric > newMetric timeToLive then
      t.setAddr senderAddr localSenderAddr (newMetric timeToLive)
    else t
  else t

/-- `handle_node_route_inverse` takes the packet's way back only when it has none. -/
def learnInverse (t : RoutingTable) (receiverAddr localSenderAddr : UInt8) (timeToLive : Int8) :
    RoutingTable :=
  if newMetric timeToLive > 0 then
    if t.nextAddr receiverAddr = noAddr then
      t.setAddr receiverAddr localSenderAddr (newMetric timeToLive)
    else t
  else t

variable {t} (s x : UInt8) (k : Int8)

/-- What a flooded packet leaves in the table: the packet's way back at the packet's metric,
or what was there. -/
theorem learnDirect_cases :
    t.learnDirect s x k = t ∧
        (newMetric k ≤ 0 ∨ t.nextAddr s ≠ noAddr ∧ (t.get s).metric ≤ newMetric k) ∨
      t.learnDirect s x k = t.setAddr s x (newMetric k) ∧ 0 < newMetric k ∧
        (t.nextAddr s = noAddr ∨ newMetric k < (t.get s).metric) := by
  unfold learnDirect
  split_ifs <;> grind

theorem learnInverse_cases :
    t.learnInverse s x k = t ∧ (newMetric k ≤ 0 ∨ t.nextAddr s ≠ noAddr) ∨
      t.learnInverse s x k = t.setAddr s x (newMetric k) ∧ 0 < newMetric k ∧
        t.nextAddr s = noAddr := by
  unfold learnInverse
  split_ifs <;> grind

end RoutingTable

/-! ## Distances as numbers -/

variable {k : Int8}

theorem toInt_ttl : ttl.toInt = 20 := rfl

theorem toInt_newMetric (hpos : 0 ≤ k.toInt) (hle : k.toInt ≤ 20) :
    (RoutingTable.newMetric k).toInt = 21 - k.toInt := by
  rw [RoutingTable.newMetric, Int8.toInt_add, Int8.toInt_sub, toInt_ttl]
  change ((20 - k.toInt).bmod 256 + 1).bmod 256 = _
  rw [Int.bmod_eq_of_le (n := 20 - k.toInt) (by omega) (by omega),
    Int.bmod_eq_of_le (by omega) (by omega)]
  omega

theorem toInt_sub_one (hpos : 0 < k.toInt) : (k - 1).toInt = k.toInt - 1 := by
  have hlt := k.toInt_lt
  rw [Int8.toInt_sub]
  change (k.toInt - 1).bmod 256 = _
  exact Int.bmod_eq_of_le (by omega) (by omega)

end MeshNet
