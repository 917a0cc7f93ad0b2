import Mathlib.Data.List.Basic

/-!
# Pointer walks over memory

A reader walks a pointer over memory and leaves a trace: every position it reads and every
cell of its destination array it stores to. The memory is total, so a walk past the data it
was meant for still has a result; its trace then says so.
-/

namespace MeshNet.Library

structure Walk where
  pos : Nat := 0
  reads : List Nat := []
  stores : List Nat := []
  deriving DecidableEq

abbrev Reader := ReaderT (Nat → UInt8) (StateM Walk)

namespace Reader

variable {α β : Type}

def byte : Reader UInt8 := fun mem w =>
  (mem w.pos, { w with pos := w.pos + 1, reads := w.reads ++ [w.pos] })

def bytes (n : Nat) : Reader (List UInt8) := fun mem w =>
  ((List.range n).map fun i => mem (w.pos + i),
    { w with pos := w.pos + n, reads := w.reads ++ (List.range n).map (w.pos + ·) })

def position : Reader Nat := fun _ w => (w.pos, w)

def seek (p : Nat) : Reader Unit := fun _ w => ((), { w with pos := p })

/-- Store to the first `n` cells of the destination array. -/
def store (n : Nat) : Reader Unit := fun _ w =>
  ((), { w with stores := w.stores ++ List.range n })

@[simp] theorem bind_apply (r : Reader α) (f : α → Reader β) (mem : Nat → UInt8) (w : Walk) :
    (r >>= f) mem w = f (r mem w).1 mem (r mem w).2 := rfl

@[simp] theorem pure_apply (a : α) (mem : Nat → UInt8) (w : Walk) :
    (pure a : Reader α) mem w = (a, w) := rfl

@[simp] theorem map_apply (f : α → β) (r : Reader α) (mem : Nat → UInt8) (w : Walk) :
    (f <$> r) mem w = (f (r mem w).1, (r mem w).2) := rfl

@[simp] theorem byte_apply (mem : Nat → UInt8) (w : Walk) :
    byte mem w = (mem w.pos, { w with pos := w.pos + 1, reads := w.reads ++ [w.pos] }) := rfl

@[simp] theorem bytes_apply (n : Nat) (mem : Nat → UInt8) (w : Walk) :
    bytes n mem w = ((List.range n).map fun i => mem (w.pos + i),
      { w with pos := w.pos + n, reads := w.reads ++ (List.range n).map (w.pos + ·) }) := rfl

@[simp] theorem position_apply (mem : Nat → UInt8) (w : Walk) :
    position mem w = (w.pos, w) := rfl

@[simp] theorem seek_apply (p : Nat) (mem : Nat → UInt8) (w : Walk) :
    seek p mem w = ((), { w with pos := p }) := rfl

@[simp] theorem store_apply (n : Nat) (mem : Nat → UInt8) (w : Walk) :
    store n mem w = ((), { w with stores := w.stores ++ List.range n }) := rfl

end Reader

/-! ## Data lying in memory -/

/-- The bytes `bs` lie in memory from position `p` on. -/
def Holds (mem : Nat → UInt8) (p : Nat) (bs : List UInt8) : Prop :=
  (List.range bs.length).map (fun i => mem (p + i)) = bs

theorem Holds.read {mem : Nat → UInt8} {p : Nat} {bs : List UInt8} (h : Holds mem p bs) :
    (List.range bs.length).map (fun i => mem (p + i)) = bs := h

theorem holds_map_range (mem : Nat → UInt8) (p n : Nat) :
    Holds mem p ((List.range n).map fun i => mem (p + i)) := by
  simp [Holds]

@[simp] theorem holds_nil (mem : Nat → UInt8) (p : Nat) : Holds mem p [] := rfl

@[simp] theorem holds_cons {mem : Nat → UInt8} {p : Nat} {b : UInt8} {bs : List UInt8} :
    Holds mem p (b :: bs) ↔ mem p = b ∧ Holds mem (p + 1) bs := by
  simp [Holds, List.range_succ_eq_map, Function.comp_def, Nat.add_assoc, Nat.add_comm 1]

@[simp] theorem holds_append {mem : Nat → UInt8} {p : Nat} {as bs : List UInt8} :
    Holds mem p (as ++ bs) ↔ Holds mem p as ∧ Holds mem (p + as.length) bs := by
  induction as generalizing p with
  | nil => simp
  | cons a as ih =>
    simp only [List.cons_append, holds_cons, ih, List.length_cons, and_assoc]
    rw [Nat.add_assoc, Nat.add_comm 1]

/-- A buffer into which `bs` was received; behind it lies whatever was there before. -/
def received (bs : List UInt8) (rest : Nat → UInt8) : Nat → UInt8 :=
  fun i => bs.getD i (rest i)

theorem holds_received (bs : List UInt8) (rest : Nat → UInt8) : Holds (received bs rest) 0 bs := by
  apply List.ext_getElem
  · simp
  · intro i hi _
    have hlt : i < bs.length := by simpa using hi
    simp [received, List.getD_eq_getElem?_getD, hlt]

/-- What lies at the start of a buffer, and no further than was received, was received. -/
theorem Holds.isPrefix {bs body : List UInt8} {rest : Nat → UInt8}
    (h : Holds (received body rest) 0 bs) (hlen : bs.length ≤ body.length) : bs <+: body := by
  rw [List.prefix_iff_eq_take]
  calc bs = (List.range bs.length).map fun i => received body rest (0 + i) := h.read.symm
    _ = body.take bs.length := by
      refine List.ext_getElem (by simp [hlen]) fun i hi hi' => ?_
      have hbody : i < body.length := Nat.lt_of_lt_of_le hi' (List.length_take_le' _ _)
      simp [received, List.getD_eq_getElem?_getD, hbody]

end MeshNet.Library
