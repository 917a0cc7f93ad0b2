import Mathlib.Data.List.Basic
import Mathlib.Logic.Function.Iterate

/-!
# Linear feedback shift registers

A register of `w` bits that is shifted towards its low end; a one that falls out is fed back
as the exclusive or with a fixed word. The shift is linear, and when the fed word has its top
bit set it loses nothing, so that two inputs that differ in a stretch no longer than the
register never leave the same word behind.
-/

namespace MeshNet.Library.Register

variable {w : Nat} (taps : BitVec w)

/-! ## One shift -/

def shift (s : BitVec w) : BitVec w :=
  if s.getLsbD 0 then (s >>> 1) ^^^ taps else s >>> 1

theorem shift_of_even {s : BitVec w} (h : s.getLsbD 0 = false) : shift taps s = s >>> 1 := by
  simp [shift, h]

theorem shift_xor (s t : BitVec w) : shift taps (s ^^^ t) = shift taps s ^^^ shift taps t := by
  simp only [shift, BitVec.getLsbD_xor, BitVec.ushiftRight_xor_distrib]
  cases s.getLsbD 0 <;> cases t.getLsbD 0 <;> simp
  · ac_rfl
  · ac_rfl
  · rw [BitVec.xor_assoc, BitVec.xor_comm taps, BitVec.xor_assoc, BitVec.xor_self,
      BitVec.xor_zero]

theorem shift_eq_zero {s : BitVec w} (htop : taps.msb = true) (h : shift taps s = 0) :
    s = 0 := by
  have hw : 0 < w := by
    rcases Nat.eq_zero_or_pos w with rfl | hw
    · simp [BitVec.msb, BitVec.getMsbD] at htop
    · exact hw
  have hlow : s.getLsbD 0 = false := by
    -- what falls out as a one comes back in the top bit
    by_contra hone
    have htaps : s >>> 1 = taps := by
      rw [shift, if_pos (Bool.of_not_eq_false hone)] at h
      exact BitVec.xor_eq_zero_iff.mp h
    have hclear : (s >>> 1).msb = false := by
      simp [BitVec.msb_eq_getLsbD_last, show 1 + (w - 1) = w by omega]
    simp [htaps, htop] at hclear
  rw [shift_of_even taps hlow] at h
  apply BitVec.eq_of_getLsbD_eq
  intro i _
  cases i with
  | zero => simpa using hlow
  | succ i =>
    have hbit := congrArg (BitVec.getLsbD · i) h
    simpa [Nat.add_comm] using hbit

theorem shift_injective (htop : taps.msb = true) : Function.Injective (shift taps) := by
  intro s t h
  apply BitVec.xor_eq_zero_iff.mp
  apply shift_eq_zero taps htop
  rw [shift_xor, h, BitVec.xor_self]
  rfl

/-! ## Several shifts -/

theorem shifts_xor (k : Nat) (s t : BitVec w) :
    (shift taps)^[k] (s ^^^ t) = (shift taps)^[k] s ^^^ (shift taps)^[k] t := by
  induction k generalizing s t with
  | zero => rfl
  | succ k ih => rw [Function.iterate_succ_apply, shift_xor, ih]; rfl

/-- As long as only zeros fall out, nothing is fed back. -/
theorem shifts_of_low {k : Nat} {s : BitVec w} (h : ∀ i < k, s.getLsbD i = false) :
    (shift taps)^[k] s = s >>> k := by
  induction k generalizing s with
  | zero => rw [Function.iterate_zero_apply, BitVec.ushiftRight_zero]
  | succ k ih =>
    have hrest : ∀ i < k, (s >>> 1).getLsbD i = false := by
      intro i hi
      rw [BitVec.getLsbD_ushiftRight]
      exact h (1 + i) (by omega)
    rw [Function.iterate_succ_apply, shift_of_even taps (h 0 (by omega)), ih hrest,
      ← BitVec.shiftRight_add, Nat.add_comm]

/-- Shifting a whole word down by `k` places feeds back what its low `k` bits call for. -/
theorem shifts_eq_low_xor (k : Nat) (s low : BitVec w)
    (h : ∀ i < k, s.getLsbD i = low.getLsbD i) :
    (shift taps)^[k] s = (shift taps)^[k] low ^^^ ((s ^^^ low) >>> k) := by
  have hzero : ∀ i < k, (s ^^^ low).getLsbD i = false := by
    intro i hi
    rw [BitVec.getLsbD_xor, h i hi, Bool.xor_self]
  have hs : s = low ^^^ (s ^^^ low) := by
    rw [BitVec.xor_comm s low, ← BitVec.xor_assoc, BitVec.xor_self, BitVec.zero_xor]
  rw [← shifts_of_low taps hzero, ← shifts_xor, ← hs]

/-! ## Feeding bits -/

/-- The bits of a stretch as a word, the first in the lowest place. -/
def pack (bits : List Bool) : BitVec w := (BitVec.ofBoolListLE bits).setWidth w

@[simp] theorem getElem_pack (bits : List Bool) (i : Nat) (h : i < w) :
    (pack bits : BitVec w)[i] = bits.getD i false := by
  simp [pack]

@[simp] theorem pack_nil : (pack [] : BitVec w) = 0 := by
  ext i h
  simp

theorem pack_cons (b : Bool) (bits : List Bool) :
    (pack (b :: bits) : BitVec w) = pack [b] ^^^ (pack bits <<< 1) := by
  ext i h
  cases i <;> simp

theorem pack_injective {bs cs : List Bool} (hlen : bs.length = cs.length) (hw : bs.length ≤ w)
    (h : (pack bs : BitVec w) = pack cs) : bs = cs := by
  apply List.ext_getElem hlen
  intro i hb hc
  have hiw : i < w := by omega
  have hbit : (pack bs : BitVec w)[i] = (pack cs)[i] := by rw [h]
  simpa [hb, hc] using hbit

/-- Each bit is added to the lowest place before the register is shifted. -/
def feed (s : BitVec w) (bits : List Bool) : BitVec w :=
  bits.foldl (fun s b => shift taps (s ^^^ pack [b])) s

theorem feed_append (s : BitVec w) (bs cs : List Bool) :
    feed taps s (bs ++ cs) = feed taps (feed taps s bs) cs := List.foldl_append

theorem feed_injective (htop : taps.msb = true) (bits : List Bool) :
    Function.Injective (feed taps · bits) := by
  induction bits with
  | nil => intro s t h; exact h
  | cons b bits ih =>
    intro s t h
    have hshift := shift_injective taps htop (ih h)
    exact (BitVec.xor_left_inj _).mp hshift

/-- A stretch no longer than the register may be added as one word before the shifts. -/
theorem feed_eq_shifts (s : BitVec w) {bits : List Bool} (h : bits.length ≤ w) :
    feed taps s bits = (shift taps)^[bits.length] (s ^^^ pack bits) := by
  induction bits generalizing s with
  | nil => simp [feed]
  | cons b bits ih =>
    have hlen : bits.length < w := h
    have heven : (pack bits <<< 1 : BitVec w).getLsbD 0 = false := by simp
    have hback : (pack bits <<< 1 : BitVec w) >>> 1 = pack bits := by
      ext i hi
      rcases Nat.lt_or_ge i bits.length with hin | hout
      · have hlast : 1 + i < w := by omega
        simp [hlast]
      · have hclear : (pack bits : BitVec w)[i] = false := by simp [hout]
        simp [BitVec.getLsbD_eq_getElem hi, hclear]
    calc feed taps s (b :: bits)
        = feed taps (shift taps (s ^^^ pack [b])) bits := rfl
      _ = (shift taps)^[bits.length] (shift taps (s ^^^ pack [b]) ^^^ pack bits) :=
        ih _ (Nat.le_of_lt hlen)
      _ = (shift taps)^[bits.length] (shift taps (s ^^^ pack [b] ^^^ (pack bits <<< 1))) := by
        rw [shift_xor _ (s ^^^ _), shift_of_even taps heven, hback]
      _ = (shift taps)^[(b :: bits).length] (s ^^^ pack (b :: bits)) := by
        rw [BitVec.xor_assoc, ← pack_cons]; rfl

/-- A stretch no longer than the register can be told from the word it leaves. -/
theorem feed_injective_bits (htop : taps.msb = true) (s : BitVec w) {bs cs : List Bool}
    (hlen : bs.length = cs.length) (hw : bs.length ≤ w) (h : feed taps s bs = feed taps s cs) :
    bs = cs := by
  rw [feed_eq_shifts taps s hw, feed_eq_shifts taps s (hlen ▸ hw), hlen] at h
  have hword := (shift_injective taps htop).iterate _ h
  exact pack_injective hlen hw ((BitVec.xor_right_inj s).mp hword)

/-! ## Bursts -/

/-- The two streams differ within `k` consecutive places at most. -/
def Burst (k : Nat) (bs cs : List Bool) : Prop :=
  ∃ j, ∀ i, bs[i]? ≠ cs[i]? → j ≤ i ∧ i < j + k

theorem Burst.take_eq {k j : Nat} {bs cs : List Bool}
    (h : ∀ i, bs[i]? ≠ cs[i]? → j ≤ i ∧ i < j + k) : bs.take j = cs.take j := by
  apply List.ext_getElem?
  intro i
  by_cases hi : i < j
  · have hsame : bs[i]? = cs[i]? := by
      by_contra hne
      exact absurd (h i hne).1 (by omega)
    rw [List.getElem?_take_of_lt hi, List.getElem?_take_of_lt hi, hsame]
  · have hle : j ≤ i := Nat.le_of_not_lt hi
    rw [List.getElem?_take_eq_none hle, List.getElem?_take_eq_none hle]

theorem Burst.drop_eq {k j : Nat} {bs cs : List Bool}
    (h : ∀ i, bs[i]? ≠ cs[i]? → j ≤ i ∧ i < j + k) : bs.drop (j + k) = cs.drop (j + k) := by
  apply List.ext_getElem?
  intro i
  rw [List.getElem?_drop, List.getElem?_drop]
  by_contra hne
  exact absurd (h _ hne).2 (by omega)

/-- The parts of a stream before, inside and behind a stretch. -/
theorem split_at (j k : Nat) (bs : List Bool) :
    bs = bs.take j ++ ((bs.drop j).take k ++ bs.drop (j + k)) := by
  rw [← List.drop_drop, List.take_append_drop, List.take_append_drop]

/-- Two streams that differ in a burst no longer than the register leave it different. -/
theorem feed_ne_of_burst (htop : taps.msb = true) (s : BitVec w) {bs cs : List Bool}
    (hlen : bs.length = cs.length) (hne : bs ≠ cs) (hburst : Burst w bs cs) :
    feed taps s bs ≠ feed taps s cs := by
  obtain ⟨j, hj⟩ := hburst
  have hbefore := Burst.take_eq hj
  have hbehind := Burst.drop_eq hj
  intro heq
  rw [split_at j w bs, split_at j w cs, ← hbefore, ← hbehind, feed_append, feed_append,
    feed_append, feed_append] at heq
  have hinside := feed_injective taps htop _ heq
  have hsame : ((bs.drop j).take w).length = ((cs.drop j).take w).length := by
    simp [hlen]
  have hstretch := feed_injective_bits taps htop _ hsame (List.length_take_le ..) hinside
  apply hne
  rw [split_at j w bs, split_at j w cs, hbefore, hstretch, hbehind]

/-! ## Parity -/

/-- Whether the number of ones is odd. -/
def oddOnes (bits : List Bool) : Bool := bits.foldr xor false

def parity (s : BitVec w) : Bool := oddOnes ((List.range w).map s.getLsbD)

@[simp] theorem oddOnes_cons (b : Bool) (bits : List Bool) :
    oddOnes (b :: bits) = (b ^^ oddOnes bits) := rfl

theorem oddOnes_eq (bits : List Bool) : oddOnes bits = decide (bits.count true % 2 = 1) := by
  induction bits with
  | nil => rfl
  | cons b bits ih =>
    rw [oddOnes_cons, ih]
    cases b <;> grind

theorem oddOnes_map_xor {α : Type} (f g : α → Bool) (l : List α) :
    oddOnes (l.map fun a => f a ^^ g a) = (oddOnes (l.map f) ^^ oddOnes (l.map g)) := by
  induction l with
  | nil => rfl
  | cons a l ih => simp only [List.map_cons, oddOnes_cons, ih, Bool.xor_assoc, Bool.xor_left_comm]

theorem oddOnes_zipWith {bs cs : List Bool} (hlen : bs.length = cs.length) :
    oddOnes (List.zipWith xor bs cs) = (oddOnes bs ^^ oddOnes cs) := by
  induction bs generalizing cs with
  | nil => rw [List.eq_nil_of_length_eq_zero hlen.symm]; rfl
  | cons b bs ih =>
    cases cs with
    | nil => cases hlen
    | cons c cs =>
      simp only [List.zipWith_cons_cons, oddOnes_cons, ih (Nat.succ.inj hlen), Bool.xor_assoc,
        Bool.xor_left_comm]

theorem parity_xor (s t : BitVec w) : parity (s ^^^ t) = (parity s ^^ parity t) := by
  simp only [parity, ← oddOnes_map_xor, ← BitVec.getLsbD_xor]

@[simp] theorem parity_zero : parity (0 : BitVec w) = false := by
  have h := parity_xor (0 : BitVec w) 0
  simpa using h

/-- The bit that falls out is taken from the parity. -/
theorem parity_ushiftRight (s : BitVec w) : parity s = (s.getLsbD 0 ^^ parity (s >>> 1)) := by
  have hfront : oddOnes ((List.range (w + 1)).map s.getLsbD) =
      (s.getLsbD 0 ^^ parity (s >>> 1)) := by
    rw [List.range_succ_eq_map, List.map_cons, oddOnes_cons, List.map_map, parity]
    congr 2
    refine List.map_congr_left fun i _ => ?_
    rw [Function.comp_apply, BitVec.getLsbD_ushiftRight, Nat.add_comm]
  have hback : oddOnes ((List.range (w + 1)).map s.getLsbD) = parity s := by
    rw [List.range_succ, List.map_append, List.map_singleton,
      BitVec.getLsbD_of_ge s w (Nat.le_refl w), oddOnes_eq, List.count_append, parity, oddOnes_eq]
    rfl
  rw [← hback, hfront]

/-- With an odd number of taps a shift keeps the parity: what falls out comes back. -/
theorem parity_shift (htaps : parity taps = true) (s : BitVec w) :
    parity (shift taps s) = parity s := by
  rw [parity_ushiftRight s, shift]
  cases s.getLsbD 0 <;> simp [parity_xor, htaps]

theorem parity_pack (hw : 0 < w) (b : Bool) : parity (pack [b] : BitVec w) = b := by
  have hrest : (pack [b] : BitVec w) >>> 1 = 0 := by
    ext i hi
    rcases Nat.lt_or_ge (1 + i) w with hlt | hge <;> simp [*]
  rw [parity_ushiftRight, hrest, parity_zero, BitVec.getLsbD_eq_getElem hw, getElem_pack]
  cases b <;> rfl

/-- A register with an odd number of taps keeps the parity of all it was fed. -/
theorem parity_feed (hw : 0 < w) (htaps : parity taps = true) (s : BitVec w) (bits : List Bool) :
    parity (feed taps s bits) = (parity s ^^ oddOnes bits) := by
  induction bits generalizing s with
  | nil => simp [feed, oddOnes]
  | cons b bits ih =>
    have hstep : feed taps s (b :: bits) = feed taps (shift taps (s ^^^ pack [b])) bits := rfl
    rw [hstep, ih, parity_shift taps htaps, parity_xor, parity_pack hw, oddOnes_cons,
      Bool.xor_assoc]

/-! ## Few places -/

/-- The number of places in which two streams differ. -/
def flips (bs cs : List Bool) : Nat := (List.zipWith xor bs cs).count true

theorem feed_ne_of_odd (hw : 0 < w) (htaps : parity taps = true) (s : BitVec w)
    {bs cs : List Bool} (hlen : bs.length = cs.length) (hodd : flips bs cs % 2 = 1) :
    feed taps s bs ≠ feed taps s cs := by
  intro heq
  have hsame := congrArg parity heq
  rw [parity_feed taps hw htaps, parity_feed taps hw htaps] at hsame
  have hbits : (oddOnes bs ^^ oddOnes cs) = false := by
    rw [Bool.xor_right_inj.mp hsame, Bool.xor_self]
  rw [← oddOnes_zipWith hlen, oddOnes_eq] at hbits
  exact of_decide_eq_false hbits hodd

theorem pack_xor (b c : Bool) : (pack [b ^^ c] : BitVec w) = pack [b] ^^^ pack [c] := by
  ext i hi
  cases i <;> simp

/-- What two streams leave differs by what their difference leaves. -/
theorem feed_xor (s t : BitVec w) {bs cs : List Bool} (hlen : bs.length = cs.length) :
    feed taps (s ^^^ t) (List.zipWith xor bs cs) = feed taps s bs ^^^ feed taps t cs := by
  induction bs generalizing cs s t with
  | nil => rw [List.eq_nil_of_length_eq_zero hlen.symm]; rfl
  | cons b bs ih =>
    cases cs with
    | nil => cases hlen
    | cons c cs =>
      have hstep : shift taps (s ^^^ t ^^^ pack [b ^^ c]) =
          shift taps (s ^^^ pack [b]) ^^^ shift taps (t ^^^ pack [c]) := by
        rw [← shift_xor, pack_xor]
        congr 1
        ac_rfl
      change feed taps (shift taps (s ^^^ t ^^^ pack [b ^^ c])) (List.zipWith xor bs cs) = _
      rw [hstep, ih _ _ (Nat.succ.inj hlen)]
      rfl

theorem feed_zeros (s : BitVec w) (k : Nat) :
    feed taps s (List.replicate k false) = (shift taps)^[k] s := by
  induction k generalizing s with
  | zero => rfl
  | succ k ih =>
    have hnone : s ^^^ pack [false] = s := by
      ext i hi
      cases i <;> simp
    change feed taps (shift taps (s ^^^ pack [false])) (List.replicate k false) = _
    rw [hnone, ih, Function.iterate_succ_apply]

theorem shifts_eq_zero (htop : taps.msb = true) {k : Nat} {s : BitVec w}
    (h : (shift taps)^[k] s = 0) : s = 0 := by
  induction k generalizing s with
  | zero => exact h
  | succ k ih =>
    rw [Function.iterate_succ_apply] at h
    exact shift_eq_zero taps htop (ih h)

/-- The first one of a stream. -/
theorem exists_first_one {n : Nat} {bits : List Bool} (h : bits.count true = n + 1) :
    ∃ k rest, bits = List.replicate k false ++ true :: rest ∧ rest.count true = n := by
  induction bits with
  | nil => cases h
  | cons b bits ih =>
    cases b with
    | true => exact ⟨0, bits, rfl, by simpa using h⟩
    | false =>
      obtain ⟨k, rest, rfl, hrest⟩ := ih (by simpa using h)
      exact ⟨k + 1, rest, rfl, hrest⟩

theorem eq_replicate_of_count {bits : List Bool} (h : bits.count true = 0) :
    bits = List.replicate bits.length false := by
  refine List.eq_replicate_iff.mpr ⟨rfl, fun b hb => ?_⟩
  cases b with
  | true => exact absurd hb (List.count_eq_zero.mp h)
  | false => rfl

theorem feed_true_cons (s : BitVec w) (bits : List Bool) :
    feed taps s (true :: bits) = feed taps (shift taps (s ^^^ pack [true])) bits := rfl

/-- Two streams that differ in two places leave different words, unless a one comes back to where
it was after as many shifts as there are from the one to the other. -/
theorem feed_ne_of_two (htop : taps.msb = true) (s : BitVec w) {bs cs : List Bool}
    (horder : ∀ d, 0 < d → d < bs.length → (shift taps)^[d] (pack [true]) ≠ pack [true])
    (hlen : bs.length = cs.length) (htwo : flips bs cs = 2) :
    feed taps s bs ≠ feed taps s cs := by
  intro heq
  have hzero : feed taps 0 (List.zipWith xor bs cs) = 0 := by
    have hxor := feed_xor taps s s hlen
    rwa [heq, BitVec.xor_self, BitVec.xor_self] at hxor
  have hall : (List.zipWith xor bs cs).length = bs.length := by simp [hlen]
  obtain ⟨i, rest, hfirst, hone⟩ := exists_first_one htwo
  obtain ⟨d, rest, rfl, hnone⟩ := exists_first_one hone
  rw [eq_replicate_of_count hnone] at hfirst
  have hbefore : (shift taps)^[i] (0 : BitVec w) = 0 := by
    rw [shifts_of_low taps (by simp)]
    simp
  rw [hfirst, feed_append, feed_zeros, hbefore, feed_true_cons, feed_append, feed_zeros,
    feed_true_cons, feed_zeros] at hzero
  have hback := shift_eq_zero taps htop (shifts_eq_zero taps htop hzero)
  have hstart : (0 : BitVec w) ^^^ pack [true] = pack [true] := BitVec.zero_xor
  rw [hstart, ← Function.iterate_succ_apply] at hback
  refine horder (d + 1) (Nat.succ_pos d) ?_ (BitVec.xor_eq_zero_iff.mp hback)
  rw [← hall, hfirst]
  simp only [List.length_append, List.length_replicate, List.length_cons]
  omega

theorem eq_of_flips {bs cs : List Bool} (hlen : bs.length = cs.length) (h : flips bs cs = 0) :
    bs = cs := by
  induction bs generalizing cs with
  | nil => exact (List.eq_nil_of_length_eq_zero hlen.symm).symm
  | cons b bs ih =>
    cases cs with
    | nil => cases hlen
    | cons c cs =>
      rw [flips, List.zipWith_cons_cons, List.count_cons] at h
      have hrest := ih (Nat.succ.inj hlen) (by rw [flips]; omega)
      cases b <;> cases c <;> grind

/-- With an odd number of taps no three flips or fewer go unnoticed in a stream that is shorter than
the period of the register. -/
theorem feed_ne_of_few (hw : 0 < w) (htop : taps.msb = true) (htaps : parity taps = true)
    (s : BitVec w) {bs cs : List Bool}
    (horder : ∀ d, 0 < d → d < bs.length → (shift taps)^[d] (pack [true]) ≠ pack [true])
    (hlen : bs.length = cs.length) (hne : bs ≠ cs) (hfew : flips bs cs ≤ 3) :
    feed taps s bs ≠ feed taps s cs := by
  by_cases hodd : flips bs cs % 2 = 1
  · exact feed_ne_of_odd taps hw htaps s hlen hodd
  · have hsome : flips bs cs ≠ 0 := mt (eq_of_flips hlen) hne
    exact feed_ne_of_two taps htop s horder hlen (by omega)

/-- The first `n` words from `s` on are not `t`. -/
def avoids (t : BitVec w) : Nat → BitVec w → Bool
  | 0, _ => true
  | n + 1, s => s != t && avoids t n (shift taps s)

theorem ne_of_avoids {t s : BitVec w} {n d : Nat} (h : avoids taps t n s = true) (hd : d < n) :
    (shift taps)^[d] s ≠ t := by
  induction n generalizing s d with
  | zero => omega
  | succ n ih =>
    rw [avoids, Bool.and_eq_true, bne_iff_ne] at h
    cases d with
    | zero => exact h.1
    | succ d =>
      rw [Function.iterate_succ_apply]
      exact ih h.2 (Nat.lt_of_succ_lt_succ hd)

end MeshNet.Library.Register
