import MeshNet.Node.Grid
import Mathlib.Logic.Relation
import Mathlib.Tactic.Common

/-!
# The neighbourhood of a node in the grid

Nodes stand in a square of side `matrixSize`, numbered row by row. A node broadcasts to the
cells around it: within `radius` steps in its own row and column, and within less than
`radius` rows and columns elsewhere.
-/

namespace MeshNet

def fromPos (pos : Int × Int) : UInt8 := UInt8.ofInt (pos.1 * matrixSize + pos.2)

/-- The cells left and right of the column, in a row that is not the outermost one. -/
def leftRightNeighbours (col radius i row : Int) : List (Int × Int) :=
  if i ≠ row - radius ∧ i ≠ row + radius then
    (forDown (fun j => j > col - radius && j ≥ 0) matrixSize (col - 1)).map (i, ·) ++
      (forUp (fun j => j < col + radius && j < matrixSize) matrixSize (col + 1)).map (i, ·)
  else []

/-- The cells up, down, left and right, in the order in which their ports are stored. -/
def neighbourCells (row col radius : Int) : List (Int × Int) :=
  let up := forDown (fun i => i ≥ row - radius && i ≥ 0) matrixSize (row - 1)
  let down := forUp (fun i => i ≤ row + radius && i < matrixSize) matrixSize (row + 1)
  let left := forDown (fun j => j ≥ 0 && j ≥ col - radius) matrixSize (col - 1)
  let right := forUp (fun j => j < matrixSize && j ≤ col + radius) matrixSize (col + 1)
  (up ++ down).flatMap (fun i => (i, col) :: leftRightNeighbours col radius i row) ++
    (left ++ right).map (row, ·)

def row (addr : UInt8) : Int := addr.toNat / matrixSize

def col (addr : UInt8) : Int := addr.toNat % matrixSize

def fillBroadcastNeighbors (addr radius : UInt8) : List UInt16 :=
  if row addr < 0 ∨ row addr ≥ matrixSize ∨ col addr < 0 ∨ col addr ≥ matrixSize then []
  else (neighbourCells (row addr) (col addr) radius.toNat).map fun pos => nodePort (fromPos pos)

/-- `node_essentials_fill_neighbors_port`. -/
def fillNeighborsPort (addr : UInt8) : List UInt16 := fillBroadcastNeighbors addr broadcastRadius

/-- Node `a` broadcasts to node `b`. -/
def Adjacent (a b : UInt8) : Prop := nodePort b ∈ fillNeighborsPort a

instance (a b : UInt8) : Decidable (Adjacent a b) := by unfold Adjacent; infer_instance

def InMesh (a : UInt8) : Prop := a.toNat < nodeCount

instance (a : UInt8) : Decidable (InMesh a) := by unfold InMesh; infer_instance

theorem InMesh.ne_noAddr {a : UInt8} (h : InMesh a) : a ≠ noAddr := by
  rintro rfl
  exact absurd h (by decide)

/-! ## Which nodes are adjacent -/

/-- The grid as it is compiled is one of the grids of any size. -/
theorem fillBroadcastNeighbors_eq :
    fillBroadcastNeighbors = Grid.fillBroadcastNeighbors matrixSize := rfl

/-- The place of a node of the mesh in the grid. -/
theorem InMesh.place {a : UInt8} (ha : InMesh a) :
    (0 ≤ row a ∧ row a < matrixSize) ∧ (0 ≤ col a ∧ col a < matrixSize) ∧
      (a.toNat : Int) = row a * 10 + col a :=
  Grid.InGrid.place (show Grid.InGrid matrixSize a from ha)

theorem fromPos_eq_iff {x y : Int} {b : UInt8} (hx : 0 ≤ x ∧ x < matrixSize)
    (hy : 0 ≤ y ∧ y < matrixSize) :
    fromPos (x, y) = b ↔ InMesh b ∧ x = row b ∧ y = col b :=
  Grid.fromPos_eq_iff (by decide) hx hy

theorem adjacent_iff {a b : UInt8} (ha : InMesh a) :
    Adjacent a b ↔
      InMesh b ∧ Near broadcastRadius.toNat (row b - row a) (col b - col a) :=
  Grid.mem_fill (by decide) (by decide) ha

theorem Adjacent.inMesh_left {a b : UInt8} (h : Adjacent a b) : InMesh a := by
  by_contra ha
  rw [Adjacent, fillNeighborsPort, fillBroadcastNeighbors_eq,
    Grid.fill_of_not_inGrid (by decide) ha] at h
  cases h

theorem Adjacent.inMesh {a b : UInt8} (h : Adjacent a b) : InMesh b :=
  ((adjacent_iff h.inMesh_left).mp h).1

/-- Broadcasting is mutual. -/
theorem Adjacent.symm {a b : UInt8} (h : Adjacent a b) : Adjacent b a :=
  (Grid.mem_fill_comm (by decide) (by decide) h.inMesh_left).mp h

/-- Every port a node broadcasts to belongs to a node of the mesh. -/
theorem exists_of_mem_fillNeighborsPort {a : UInt8} {port : UInt16}
    (h : port ∈ fillNeighborsPort a) : ∃ b, port = nodePort b ∧ Adjacent a b := by
  obtain ⟨b, rfl⟩ : ∃ b, port = nodePort b := Grid.exists_of_mem_fill h
  exact ⟨b, rfl, h⟩

/-- With the server a node talks to no more ports than it has slots for connections. -/
theorem length_fillNeighborsPort {a : UInt8} (ha : InMesh a) :
    (fillNeighborsPort a).length ≤ 28 :=
  Grid.length_fill_le ha

theorem nodup_fillNeighborsPort (a : UInt8) : (fillNeighborsPort a).Nodup := by
  rw [fillNeighborsPort, fillBroadcastNeighbors_eq]
  by_cases ha : InMesh a
  · exact Grid.nodup_fill (by decide) (by decide) ha
  · rw [Grid.fill_of_not_inGrid (by decide) ha]
    exact List.nodup_nil

/-- No node broadcasts to itself. -/
theorem not_adjacent_self (a : UInt8) : ¬ Adjacent a a := by
  intro h
  have hnear := ((adjacent_iff h.inMesh_left).mp h).2
  rw [Int.sub_self, Int.sub_self, Near] at hnear
  omega

/-- The nodes that a node broadcasts to. -/
def neighbours (a : UInt8) : List UInt8 := (fillNeighborsPort a).map nodeAddr

theorem mem_neighbours {a b : UInt8} : b ∈ neighbours a ↔ Adjacent a b := by
  rw [neighbours, List.mem_map]
  constructor
  · rintro ⟨port, hport, rfl⟩
    obtain ⟨c, rfl, hadj⟩ := exists_of_mem_fillNeighborsPort hport
    rwa [nodeAddr_nodePort]
  · intro hadj
    exact ⟨nodePort b, hadj, nodeAddr_nodePort b⟩

theorem nodup_neighbours (a : UInt8) : (neighbours a).Nodup := by
  refine List.Nodup.map_on ?_ (nodup_fillNeighborsPort a)
  intro port hport port' hport' heq
  obtain ⟨b, rfl, -⟩ := exists_of_mem_fillNeighborsPort hport
  obtain ⟨b', rfl, -⟩ := exists_of_mem_fillNeighborsPort hport'
  rw [nodeAddr_nodePort, nodeAddr_nodePort] at heq
  rw [heq]

theorem length_neighbours_le (a : UInt8) : (neighbours a).length ≤ 28 := by
  rw [neighbours, List.length_map]
  by_cases ha : InMesh a
  · exact length_fillNeighborsPort ha
  · rw [fillNeighborsPort, fillBroadcastNeighbors_eq, Grid.fill_of_not_inGrid (by decide) ha]
    exact Nat.zero_le _

/-! ## Walking through the grid -/

/-- The next cell in the row or in the column. -/
theorem adjacent_of_step {a b : UInt8} (ha : InMesh a) (hb : InMesh b)
    (h : row b = row a ∧ col b = col a + 1 ∨ row b = row a + 1 ∧ col b = col a) :
    Adjacent a b := by
  have hradius : (broadcastRadius.toNat : Int) = 3 := rfl
  refine (adjacent_iff ha).mpr ⟨hb, ?_⟩
  rw [hradius, Near]
  omega

/-- No node is alone. -/
theorem exists_adjacent {a : UInt8} (ha : InMesh a) : ∃ b, Adjacent a b := by
  obtain ⟨hrow, hcol, -⟩ := ha.place
  by_cases hc : col a = 0
  · have hright : 0 ≤ col a + 1 ∧ col a + 1 < matrixSize := by
      rw [hc]
      decide
    obtain ⟨hb, hx, hy⟩ := (fromPos_eq_iff hrow hright).mp rfl
    exact ⟨_, adjacent_of_step ha hb (.inl ⟨hx.symm, hy.symm⟩)⟩
  · have hleft : 0 ≤ col a - 1 ∧ col a - 1 < matrixSize := by omega
    obtain ⟨hb, hx, hy⟩ := (fromPos_eq_iff hrow hleft).mp rfl
    exact ⟨_, (adjacent_of_step hb ha (.inl ⟨hx, by omega⟩)).symm⟩

/-- Every node is reached from the first one, along its column and its row. -/
theorem reflTransGen_adjacent_zero {a : UInt8} (ha : InMesh a) :
    Relation.ReflTransGen Adjacent 0 a := by
  induction hn : a.toNat using Nat.strongRecOn generalizing a with
  | ind n ih =>
    obtain ⟨hrow, hcol, hplace⟩ := ha.place
    by_cases hz : n = 0
    · rw [show a = 0 from UInt8.toNat_inj.mp (by rw [hn, hz]; rfl)]
    · have hprev : ∃ x y : Int, (0 ≤ x ∧ x < matrixSize) ∧ (0 ≤ y ∧ y < matrixSize) ∧
          (row a = x ∧ col a = y + 1 ∨ row a = x + 1 ∧ col a = y) := by
        by_cases hc : col a = 0
        · exact ⟨row a - 1, col a, by omega, hcol, by omega⟩
        · exact ⟨row a, col a - 1, hrow, by omega, by omega⟩
      obtain ⟨x, y, hx, hy, hstep⟩ := hprev
      obtain ⟨hb, hxb, hyb⟩ := (fromPos_eq_iff hx hy).mp rfl
      obtain ⟨-, -, hplace'⟩ := hb.place
      exact (ih _ (by omega) hb rfl).tail (adjacent_of_step hb ha (by omega))

/-- The grid is connected. -/
theorem reflTransGen_adjacent {a b : UInt8} (ha : InMesh a) (hb : InMesh b) :
    Relation.ReflTransGen Adjacent a b := by
  have hback : ∀ {c}, Relation.ReflTransGen Adjacent 0 c → Relation.ReflTransGen Adjacent c 0 := by
    intro c h
    have hmem : InMesh c ∧ Relation.ReflTransGen Adjacent c 0 := by
      induction h with
      | refl => exact ⟨by decide, .refl⟩
      | tail _ hadj ih => exact ⟨hadj.inMesh, .head hadj.symm ih.2⟩
    exact hmem.2
  exact (hback (reflTransGen_adjacent_zero ha)).trans (reflTransGen_adjacent_zero hb)

end MeshNet
