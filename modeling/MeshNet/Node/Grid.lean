import MeshNet.Settings
import Mathlib.Data.Int.Interval
import Mathlib.Data.List.Nodup
import Mathlib.Tactic.Common

/-!
# Neighbourhoods in a grid of any size

What `fill_broadcast_neighbors` lists for a node of a square grid, whatever `MATRIX_SIZE` and the
radius are. Rows and columns are whole numbers: as long as the addresses of the grid are bytes, its
side is no more than sixteen, and no row or column that the loops come to is outside `int8_t`.
-/

namespace MeshNet

/-- `for (i = start; p(i); i--)`, of at most `n` rounds. -/
def forDown (p : Int → Bool) : Nat → Int → List Int
  | 0, _ => []
  | n + 1, i => if p i then i :: forDown p n (i - 1) else []

/-- `for (i = start; p(i); i++)`, of at most `n` rounds. -/
def forUp (p : Int → Bool) : Nat → Int → List Int
  | 0, _ => []
  | n + 1, i => if p i then i :: forUp p n (i + 1) else []

/-- The shape of the neighbourhood: a square without its corner lines, and a cross. -/
def Near (radius drow dcol : Int) : Prop :=
  (drow ≠ 0 ∧ -radius < drow ∧ drow < radius ∧ -radius < dcol ∧ dcol < radius) ∨
  (drow ≠ 0 ∧ -radius ≤ drow ∧ drow ≤ radius ∧ dcol = 0) ∨
  (drow = 0 ∧ dcol ≠ 0 ∧ -radius ≤ dcol ∧ dcol ≤ radius)

/-! ## The loops -/

theorem mem_forDown {p : Int → Bool} {lo x : Int} (hp : ∀ i, p i = true ↔ lo ≤ i) {n : Nat}
    {i : Int} (hn : i < lo + n) : x ∈ forDown p n i ↔ lo ≤ x ∧ x ≤ i := by
  induction n generalizing i with
  | zero => simp [forDown]; omega
  | succ n ih =>
    by_cases h : lo ≤ i
    · simp only [forDown, (hp i).mpr h, if_true, List.mem_cons, ih (i := i - 1) (by omega)]
      omega
    · have hno : p i = false := Bool.eq_false_iff.mpr (mt (hp i).mp h)
      simp only [forDown, hno, Bool.false_eq_true, if_false, List.not_mem_nil, false_iff]
      omega

theorem mem_forUp {p : Int → Bool} {hi x : Int} (hp : ∀ i, p i = true ↔ i ≤ hi) {n : Nat}
    {i : Int} (hn : hi < i + n) : x ∈ forUp p n i ↔ i ≤ x ∧ x ≤ hi := by
  induction n generalizing i with
  | zero => simp [forUp]; omega
  | succ n ih =>
    by_cases h : i ≤ hi
    · simp only [forUp, (hp i).mpr h, if_true, List.mem_cons, ih (i := i + 1) (by omega)]
      omega
    · have hno : p i = false := Bool.eq_false_iff.mpr (mt (hp i).mp h)
      simp only [forUp, hno, Bool.false_eq_true, if_false, List.not_mem_nil, false_iff]
      omega

theorem le_of_mem_forDown {p : Int → Bool} {n : Nat} {i x : Int} (h : x ∈ forDown p n i) :
    x ≤ i := by
  induction n generalizing i with
  | zero => cases h
  | succ n ih =>
    rw [forDown] at h
    split at h
    · rcases List.mem_cons.mp h with rfl | h
      · exact Int.le_refl x
      · have := ih h
        omega
    · cases h

theorem ge_of_mem_forUp {p : Int → Bool} {n : Nat} {i x : Int} (h : x ∈ forUp p n i) :
    i ≤ x := by
  induction n generalizing i with
  | zero => cases h
  | succ n ih =>
    rw [forUp] at h
    split at h
    · rcases List.mem_cons.mp h with rfl | h
      · exact Int.le_refl x
      · have := ih h
        omega
    · cases h

theorem nodup_forDown (p : Int → Bool) (n : Nat) (i : Int) : (forDown p n i).Nodup := by
  induction n generalizing i with
  | zero => exact List.nodup_nil
  | succ n ih =>
    rw [forDown]
    split
    · apply List.nodup_cons.mpr
      refine ⟨?_, ih (i - 1)⟩
      intro h
      have := le_of_mem_forDown h
      omega
    · exact List.nodup_nil

theorem nodup_forUp (p : Int → Bool) (n : Nat) (i : Int) : (forUp p n i).Nodup := by
  induction n generalizing i with
  | zero => exact List.nodup_nil
  | succ n ih =>
    rw [forUp]
    split
    · apply List.nodup_cons.mpr
      refine ⟨?_, ih (i + 1)⟩
      intro h
      have := ge_of_mem_forUp h
      omega
    · exact List.nodup_nil

/-- A loop down from the place below `i` and one up from the place above it do not meet. -/
theorem nodup_forDown_forUp (p q : Int → Bool) (n : Nat) (i : Int) :
    (forDown p n (i - 1) ++ forUp q n (i + 1)).Nodup := by
  apply List.Nodup.append (nodup_forDown p n _) (nodup_forUp q n _)
  intro x hdown hup
  have := le_of_mem_forDown hdown
  have := ge_of_mem_forUp hup
  omega

/-! ## The list -/

namespace Grid

variable (size : Nat)

def fromPos (pos : Int × Int) : UInt8 := UInt8.ofInt (pos.1 * size + pos.2)

/-- The cells left and right of the column, in a row that is not the outermost one. -/
def leftRightNeighbours (col radius i row : Int) : List (Int × Int) :=
  if i ≠ row - radius ∧ i ≠ row + radius then
    (forDown (fun j => j > col - radius && j ≥ 0) size (col - 1)).map (i, ·) ++
      (forUp (fun j => j < col + radius && j < size) size (col + 1)).map (i, ·)
  else []

/-- The cells up, down, left and right, in the order in which their ports are stored. -/
def neighbourCells (row col radius : Int) : List (Int × Int) :=
  let up := forDown (fun i => i ≥ row - radius && i ≥ 0) size (row - 1)
  let down := forUp (fun i => i ≤ row + radius && i < size) size (row + 1)
  let left := forDown (fun j => j ≥ 0 && j ≥ col - radius) size (col - 1)
  let right := forUp (fun j => j < size && j ≤ col + radius) size (col + 1)
  (up ++ down).flatMap (fun i => (i, col) :: leftRightNeighbours size col radius i row) ++
    (left ++ right).map (row, ·)

def row (addr : UInt8) : Int := addr.toNat / size

def col (addr : UInt8) : Int := addr.toNat % size

def fillBroadcastNeighbors (addr radius : UInt8) : List UInt16 :=
  if row size addr < 0 ∨ row size addr ≥ size ∨ col size addr < 0 ∨ col size addr ≥ size then []
  else
    (neighbourCells size (row size addr) (col size addr) radius.toNat).map fun pos =>
      nodePort (fromPos size pos)

/-! ## Which cells are listed -/

variable {size} {row col radius i x y : Int}

theorem mem_leftRightNeighbours (hcol : 0 ≤ col ∧ col < size) (hradius : 0 < radius) :
    (x, y) ∈ leftRightNeighbours size col radius i row ↔
      x = i ∧ i ≠ row - radius ∧ i ≠ row + radius ∧ y ≠ col ∧ col - radius < y ∧
        y < col + radius ∧ 0 ≤ y ∧ y < size := by
  have hleft : y ∈ forDown (fun j => j > col - radius && j ≥ 0) size (col - 1) ↔
      max (col - radius + 1) 0 ≤ y ∧ y ≤ col - 1 :=
    mem_forDown (fun j => by grind) (by omega)
  have hright : y ∈ forUp (fun j => j < col + radius && j < size) size (col + 1) ↔
      col + 1 ≤ y ∧ y ≤ min (col + radius - 1) (size - 1) :=
    mem_forUp (fun j => by grind) (by omega)
  unfold leftRightNeighbours
  split <;>
    simp only [List.mem_append, List.mem_map, Prod.mk.injEq, exists_eq_right_right, hleft, hright,
      List.not_mem_nil, false_iff] <;>
    omega

theorem mem_neighbourCells (hrow : 0 ≤ row ∧ row < size) (hcol : 0 ≤ col ∧ col < size)
    (hradius : 0 < radius) :
    (x, y) ∈ neighbourCells size row col radius ↔
      (0 ≤ x ∧ x < size) ∧ (0 ≤ y ∧ y < size) ∧ Near radius (x - row) (y - col) := by
  have hup : ∀ i, i ∈ forDown (fun i => i ≥ row - radius && i ≥ 0) size (row - 1) ↔
      max (row - radius) 0 ≤ i ∧ i ≤ row - 1 :=
    fun i => mem_forDown (fun i => by grind) (by omega)
  have hdown : ∀ i, i ∈ forUp (fun i => i ≤ row + radius && i < size) size (row + 1) ↔
      row + 1 ≤ i ∧ i ≤ min (row + radius) (size - 1) :=
    fun i => mem_forUp (fun i => by grind) (by omega)
  have hleft : y ∈ forDown (fun j => j ≥ 0 && j ≥ col - radius) size (col - 1) ↔
      max (col - radius) 0 ≤ y ∧ y ≤ col - 1 :=
    mem_forDown (fun j => by grind) (by omega)
  have hright : y ∈ forUp (fun j => j < size && j ≤ col + radius) size (col + 1) ↔
      col + 1 ≤ y ∧ y ≤ min (col + radius) (size - 1) :=
    mem_forUp (fun j => by grind) (by omega)
  simp only [neighbourCells, List.mem_append, List.mem_flatMap, List.mem_map, List.mem_cons,
    Prod.mk.injEq, mem_leftRightNeighbours hcol hradius, hup, hdown, exists_eq_right_right, hleft,
    hright, Near]
  constructor
  · rintro (⟨i, hi, h⟩ | h) <;> omega
  · intro h
    by_cases hx : x = row
    · right
      omega
    · left
      exact ⟨x, by omega, by omega⟩

/-! ## No cell twice -/

theorem nodup_leftRightNeighbours : (leftRightNeighbours size col radius i row).Nodup := by
  unfold leftRightNeighbours
  split
  · rw [← List.map_append]
    apply List.Nodup.map
    · intro j k h
      exact (Prod.mk.inj h).2
    · exact nodup_forDown_forUp _ _ size col
  · exact List.nodup_nil

theorem nodup_neighbourCells (hcol : 0 ≤ col ∧ col < size) (hradius : 0 < radius) :
    (neighbourCells size row col radius).Nodup := by
  unfold neighbourCells
  apply List.Nodup.append
  · apply List.nodup_flatMap.mpr
    constructor
    · intro i _
      apply List.nodup_cons.mpr
      refine ⟨?_, nodup_leftRightNeighbours⟩
      rw [mem_leftRightNeighbours hcol hradius]
      grind
    · apply (nodup_forDown_forUp _ _ size row).imp
      rintro i k hik ⟨x, y⟩ hi hk
      -- the cells of a turn are all in the row of the turn
      have hrow : ∀ l, (x, y) ∈ (l, col) :: leftRightNeighbours size col radius l row → x = l := by
        intro l h
        rw [List.mem_cons, mem_leftRightNeighbours hcol hradius] at h
        grind
      exact hik ((hrow i hi).symm.trans (hrow k hk))
  · apply List.Nodup.map
    · intro j k h
      exact (Prod.mk.inj h).2
    · exact nodup_forDown_forUp _ _ size col
  · rintro ⟨x, y⟩ hcolumn hrow
    obtain ⟨i, hi, hmem⟩ := List.mem_flatMap.mp hcolumn
    have hx : x = i := by
      rw [List.mem_cons, mem_leftRightNeighbours hcol hradius] at hmem
      grind
    have hxrow : x = row := by
      obtain ⟨j, -, heq⟩ := List.mem_map.mp hrow
      exact (Prod.mk.inj heq).1.symm
    rcases List.mem_append.mp hi with hup | hdown
    · have := le_of_mem_forDown hup
      omega
    · have := ge_of_mem_forUp hdown
      omega

/-- The cells of the neighbourhood are those of a square less its middle, and the four ends of a
cross. -/
theorem length_neighbourCells_le (hrow : 0 ≤ row ∧ row < size) (hcol : 0 ≤ col ∧ col < size)
    (hradius : 0 < radius) :
    ((neighbourCells size row col radius).length : Int) ≤ (2 * radius - 1) ^ 2 + 3 := by
  let square := Finset.Ioo (row - radius) (row + radius) ×ˢ Finset.Ioo (col - radius) (col + radius)
  let ends : Finset (Int × Int) :=
    {(row - radius, col), (row + radius, col), (row, col - radius), (row, col + radius)}
  have hsub : (neighbourCells size row col radius).toFinset ⊆
      square.erase (row, col) ∪ ends := by
    rintro ⟨x, y⟩ h
    rw [List.mem_toFinset, mem_neighbourCells hrow hcol hradius] at h
    obtain ⟨-, -, hnear⟩ := h
    unfold Near at hnear
    simp only [square, ends, Finset.mem_union, Finset.mem_erase, Finset.mem_product,
      Finset.mem_Ioo, Finset.mem_insert, Finset.mem_singleton, Prod.mk.injEq, ne_eq]
    omega
  have hmiddle : (row, col) ∈ square := by
    simp only [square, Finset.mem_product, Finset.mem_Ioo]
    omega
  have hside : (2 * radius - 1).toNat = 2 * radius - 1 := Int.toNat_of_nonneg (by omega)
  have hsquare : (square.card : Int) = (2 * radius - 1) ^ 2 := by
    rw [Finset.card_product, Int.card_Ioo, Int.card_Ioo,
      show row + radius - (row - radius) - 1 = 2 * radius - 1 by omega,
      show col + radius - (col - radius) - 1 = 2 * radius - 1 by omega, Nat.cast_mul, hside, sq]
  have hpos : 0 < square.card := Finset.card_pos.mpr ⟨_, hmiddle⟩
  have hends : ends.card ≤ 4 := Finset.card_le_four
  have hcard : (neighbourCells size row col radius).length ≤ square.card - 1 + ends.card :=
    calc (neighbourCells size row col radius).length
        = (neighbourCells size row col radius).toFinset.card :=
          (List.toFinset_card_of_nodup (nodup_neighbourCells hcol hradius)).symm
      _ ≤ (square.erase (row, col) ∪ ends).card := Finset.card_le_card hsub
      _ ≤ (square.erase (row, col)).card + ends.card := Finset.card_union_le _ _
      _ = square.card - 1 + ends.card := by rw [Finset.card_erase_of_mem hmiddle]
  omega

/-! ## Addresses -/

/-- The node is one of the grid. -/
def InGrid (size : Nat) (a : UInt8) : Prop := a.toNat < size * size

instance (a : UInt8) : Decidable (InGrid size a) := by unfold InGrid; infer_instance

variable {a b : UInt8}

theorem InGrid.place (ha : InGrid size a) :
    (0 ≤ Grid.row size a ∧ Grid.row size a < size) ∧
      (0 ≤ Grid.col size a ∧ Grid.col size a < size) ∧
      (a.toNat : Int) = Grid.row size a * size + Grid.col size a := by
  have hpos : (0 : Int) < size := by
    rcases Nat.eq_zero_or_pos size with rfl | hpos
    · exact absurd ha (Nat.not_lt_zero _)
    · exact Int.natCast_pos.mpr hpos
  have ha : (a.toNat : Int) < size * size := by exact_mod_cast ha
  refine ⟨⟨?_, ?_⟩, ⟨?_, ?_⟩, ?_⟩
  · exact Int.ediv_nonneg (Int.natCast_nonneg _) hpos.le
  · exact Int.ediv_lt_of_lt_mul hpos ha
  · exact Int.emod_nonneg _ hpos.ne'
  · exact Int.emod_lt_of_pos _ hpos
  · exact (Int.ediv_mul_add_emod _ _).symm

theorem fromPos_eq_iff (hsize : size * size ≤ 256) (hx : 0 ≤ x ∧ x < size) (hy : 0 ≤ y ∧ y < size) :
    fromPos size (x, y) = b ↔ InGrid size b ∧ x = Grid.row size b ∧ y = Grid.col size b := by
  have hpos : (0 : Int) < size := by omega
  have hplace : 0 ≤ x * size + y ∧ x * size + y < size * size := by
    constructor
    · have := Int.mul_nonneg hx.1 hpos.le
      omega
    · have hrow := Int.mul_le_mul_of_nonneg_right (show x + 1 ≤ size by omega) hpos.le
      rw [Int.add_mul, Int.one_mul] at hrow
      omega
  have hbyte : (size * size : Int) ≤ 256 := by exact_mod_cast hsize
  have htoNat : ((fromPos size (x, y)).toNat : Int) = x * size + y := by
    change ((UInt8.ofInt (x * size + y)).toNat : Int) = _
    simp only [UInt8.ofInt, UInt8.toNat_ofNat']
    omega
  constructor
  · rintro rfl
    refine ⟨?_, ?_, ?_⟩
    · have := htoNat.symm ▸ hplace.2
      exact_mod_cast this
    · rw [Grid.row, htoNat, Int.add_comm, Int.add_mul_ediv_right _ _ hpos.ne',
        Int.ediv_eq_zero_of_lt hy.1 hy.2, Int.zero_add]
    · rw [Grid.col, htoNat, Int.add_comm, Int.add_mul_emod_self_right, Int.emod_eq_of_lt hy.1 hy.2]
  · rintro ⟨hb, rfl, rfl⟩
    apply UInt8.toNat_inj.mp
    have := hb.place.2.2
    omega

/-! ## Which ports are listed -/

theorem InGrid.fill (ha : InGrid size a) (reach : UInt8) :
    fillBroadcastNeighbors size a reach =
      (neighbourCells size (Grid.row size a) (Grid.col size a) reach.toNat).map fun pos =>
        nodePort (fromPos size pos) := by
  obtain ⟨hrow, hcol, -⟩ := ha.place
  rw [fillBroadcastNeighbors, if_neg (by omega)]

/-- A node outside the grid lists nothing. -/
theorem fill_of_not_inGrid (hpos : 0 < size) (ha : ¬ InGrid size a) (reach : UInt8) :
    fillBroadcastNeighbors size a reach = [] := by
  have hle : (size * size : Int) ≤ a.toNat := by
    have := Nat.le_of_not_lt ha
    exact_mod_cast this
  have hrow : Grid.row size a ≥ size :=
    (Int.le_ediv_iff_mul_le (Int.natCast_pos.mpr hpos)).mpr hle
  rw [fillBroadcastNeighbors, if_pos (.inr (.inl hrow))]

theorem exists_of_mem_fill {reach : UInt8} {port : UInt16}
    (h : port ∈ fillBroadcastNeighbors size a reach) : ∃ b, port = nodePort b := by
  unfold fillBroadcastNeighbors at h
  split at h
  · cases h
  · obtain ⟨pos, -, rfl⟩ := List.mem_map.mp h
    exact ⟨_, rfl⟩

theorem mem_fill (hsize : size * size ≤ 256) {reach : UInt8} (hreach : 0 < (reach.toNat : Int))
    (ha : InGrid size a) :
    nodePort b ∈ fillBroadcastNeighbors size a reach ↔
      InGrid size b ∧ Near reach.toNat (Grid.row size b - Grid.row size a)
        (Grid.col size b - Grid.col size a) := by
  obtain ⟨hrow, hcol, -⟩ := ha.place
  rw [ha.fill]
  simp only [List.mem_map, nodePort_inj, Prod.exists]
  constructor
  · rintro ⟨x, y, hmem, heq⟩
    obtain ⟨hx, hy, hnear⟩ := (mem_neighbourCells hrow hcol hreach).mp hmem
    obtain ⟨hb, rfl, rfl⟩ := (fromPos_eq_iff hsize hx hy).mp heq
    exact ⟨hb, hnear⟩
  · rintro ⟨hb, hnear⟩
    obtain ⟨hrow', hcol', -⟩ := hb.place
    exact ⟨_, _, (mem_neighbourCells hrow hcol hreach).mpr ⟨hrow', hcol', hnear⟩,
      (fromPos_eq_iff hsize hrow' hcol').mpr ⟨hb, rfl, rfl⟩⟩

theorem nodup_fill (hsize : size * size ≤ 256) {reach : UInt8} (hreach : 0 < (reach.toNat : Int))
    (ha : InGrid size a) : (fillBroadcastNeighbors size a reach).Nodup := by
  obtain ⟨hrow, hcol, -⟩ := ha.place
  rw [ha.fill]
  apply List.Nodup.map_on _ (nodup_neighbourCells hcol hreach)
  rintro ⟨x, y⟩ hmem ⟨x', y'⟩ hmem' heq
  obtain ⟨hx, hy, -⟩ := (mem_neighbourCells hrow hcol hreach).mp hmem
  obtain ⟨hx', hy', -⟩ := (mem_neighbourCells hrow hcol hreach).mp hmem'
  obtain ⟨-, hxb, hyb⟩ := (fromPos_eq_iff hsize hx hy).mp (nodePort_inj.mp heq)
  obtain ⟨-, hxb', hyb'⟩ := (fromPos_eq_iff hsize hx' hy').mp rfl
  exact Prod.ext (hxb.trans hxb'.symm) (hyb.trans hyb'.symm)

theorem mem_fill_comm (hsize : size * size ≤ 256) {reach : UInt8}
    (hreach : 0 < (reach.toNat : Int)) (ha : InGrid size a) :
    nodePort b ∈ fillBroadcastNeighbors size a reach ↔
      nodePort a ∈ fillBroadcastNeighbors size b reach := by
  have hpos : 0 < size := by
    obtain ⟨hrow, -, -⟩ := ha.place
    omega
  by_cases hb : InGrid size b
  · rw [mem_fill hsize hreach ha, mem_fill hsize hreach hb]
    unfold Near
    grind
  · rw [fill_of_not_inGrid hpos hb, mem_fill hsize hreach ha]
    simp [hb]

/-- `CONNECTIONS`. -/
abbrev connections : Nat := 29

theorem length_fill_le (ha : InGrid size a) :
    (fillBroadcastNeighbors size a broadcastRadius).length ≤ connections - 1 := by
  obtain ⟨hrow, hcol, -⟩ := ha.place
  have hle := length_neighbourCells_le hrow hcol (show 0 < (broadcastRadius.toNat : Int) by decide)
  change _ ≤ (2 * 3 - 1 : Int) ^ 2 + 3 at hle
  rw [ha.fill, List.length_map]
  change _ ≤ 28
  omega

/-- The list of a node is exact and mutual, and with the radius of the mesh it leaves a connection
for the server. -/
theorem fill_exact (hsize : size * size ≤ 256) {reach : UInt8} (hreach : 1 ≤ reach)
    (ha : InGrid size a) :
    (fillBroadcastNeighbors size a reach).Nodup ∧
    (∀ port ∈ fillBroadcastNeighbors size a reach, ∃ b, port = nodePort b) ∧
    (∀ b, nodePort b ∈ fillBroadcastNeighbors size a reach ↔
      let drow := (Grid.row size b - Grid.row size a).natAbs
      let dcol := (Grid.col size b - Grid.col size a).natAbs
      InGrid size b ∧ b ≠ a ∧
        (drow < reach.toNat ∧ dcol < reach.toNat ∨ drow = 0 ∧ dcol ≤ reach.toNat ∨
          dcol = 0 ∧ drow ≤ reach.toNat)) ∧
    nodePort a ∉ fillBroadcastNeighbors size a reach ∧
    (∀ b, nodePort b ∈ fillBroadcastNeighbors size a reach ↔
      nodePort a ∈ fillBroadcastNeighbors size b reach) ∧
    (reach = broadcastRadius →
      (fillBroadcastNeighbors size a reach).length ≤ connections - 1) := by
  have hreach : 0 < (reach.toNat : Int) := by
    have := UInt8.le_iff_toNat_le.mp hreach
    change 1 ≤ reach.toNat at this
    omega
  obtain ⟨hrow, hcol, hplace⟩ := ha.place
  refine ⟨nodup_fill hsize hreach ha, fun _ => exists_of_mem_fill, ?_, ?_,
    fun _ => mem_fill_comm hsize hreach ha, ?_⟩
  · intro b
    rw [mem_fill hsize hreach ha]
    apply and_congr_right
    intro hb
    have hsame : b = a ↔ Grid.row size b = Grid.row size a ∧ Grid.col size b = Grid.col size a := by
      constructor
      · rintro rfl
        exact ⟨rfl, rfl⟩
      · rintro ⟨hr, hc⟩
        have := hb.place.2.2
        apply UInt8.toNat_inj.mp
        rw [hr, hc] at this
        omega
    rw [ne_eq, hsame, Near]
    omega
  · rw [mem_fill hsize hreach ha, Near]
    omega
  · rintro rfl
    exact length_fill_le ha

/-- In a grid of four by four. -/
theorem fill_exact_four :
    (fillBroadcastNeighbors 4 5 2).Nodup ∧ nodePort 5 ∉ fillBroadcastNeighbors 4 5 2 := by
  have h := fill_exact (show 4 * 4 ≤ 256 by decide) (show (1 : UInt8) ≤ 2 by decide)
    (show InGrid 4 5 by decide)
  exact ⟨h.1, h.2.2.2.1⟩

end Grid

end MeshNet
