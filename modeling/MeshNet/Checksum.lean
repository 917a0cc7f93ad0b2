import MeshNet.Library.Register
import MeshNet.Node.Direct

/-!
# What the checksum computes and what it detects

The table of `init_crc16_table` is a way to shift the register eight times at once, so that
`crc16` is the bitwise algorithm. The bytes of a string enter the register bit by bit, least
significant first, and what holds of bursts in a linear feedback register holds of `crc16`.
-/

namespace MeshNet

open Library

/-! ## The table and the shifts -/

theorem toBitVec_crcShift (crc : UInt16) :
    (crcShift crc).toBitVec = Register.shift crcPolynomial.toBitVec crc.toBitVec := by
  have hlow : crc &&& 1 = 1 ↔ crc.toBitVec.getLsbD 0 = true := by
    rw [← UInt16.toNat_inj, UInt16.toNat_and, BitVec.getLsbD, Nat.testBit_zero]
    simp [Nat.and_one_is_mod]
  simp only [crcShift, Register.shift, hlow]
  split <;> rfl

theorem toBitVec_repeat_crcShift (k : Nat) (crc : UInt16) :
    (Nat.repeat crcShift k crc).toBitVec =
      (Register.shift crcPolynomial.toBitVec)^[k] crc.toBitVec := by
  induction k with
  | zero => rfl
  | succ k ih => rw [Nat.repeat, toBitVec_crcShift, ih, Function.iterate_succ_apply']

/-- The register over a byte, bit by bit. -/
def crcBits (crc : UInt16) (b : UInt8) : UInt16 :=
  Nat.repeat crcShift 8 (crc ^^^ b.toUInt16)

/-- The checksum without a table, continued from a register. -/
def crcBitwise (crc : UInt16) (data : List UInt8) : UInt16 := data.foldl crcBits crc

theorem crc16Table_getD (x : UInt16) :
    crc16Table.getD (x &&& 0xFF).toNat 0 = Nat.repeat crcShift 8 (x &&& 0xFF) := by
  have hlt : (x &&& 0xFF).toNat < 256 := by
    rw [UInt16.toNat_and]
    exact Nat.lt_succ_of_le Nat.and_le_right
  rw [crc16Table, List.getD_eq_getElem?_getD, List.getElem?_map, List.getElem?_range hlt,
    Option.map_some, Option.getD_some, UInt16.ofNat_toNat]

theorem getLsbD_mask (i : Nat) : (0xFF : UInt16).toBitVec.getLsbD i = decide (i < 8) := by
  change (BitVec.ofNat 16 (2 ^ 8 - 1)).getLsbD i = _
  rw [BitVec.getLsbD_ofNat, Nat.testBit_two_pow_sub_one]
  grind

/-- A byte added to the register and the mask that cuts it off leave the high byte alone. -/
theorem shiftRight_masked (crc : UInt16) (b : UInt8) :
    ((crc ^^^ b.toUInt16).toBitVec ^^^ ((crc ^^^ b.toUInt16) &&& 0xFF).toBitVec) >>> 8 =
      (crc >>> 8).toBitVec := by
  apply BitVec.eq_of_getLsbD_eq
  intro i _
  have hmask : (0xFF : UInt16).toBitVec.getLsbD (8 + i) = false := by rw [getLsbD_mask]; simp
  have hbyte : b.toUInt16.toBitVec.getLsbD (8 + i) = false := by simp
  rw [UInt16.toBitVec_shiftRight, BitVec.getLsbD_ushiftRight, UInt16.toBitVec_and,
    BitVec.getLsbD_xor, BitVec.getLsbD_and, hmask, UInt16.toBitVec_xor, BitVec.getLsbD_xor, hbyte]
  simp

theorem crcUpdate_eq_crcBits (crc : UInt16) (b : UInt8) : crcUpdate crc b = crcBits crc b := by
  have hlow : ∀ i < 8, (crc ^^^ b.toUInt16).toBitVec.getLsbD i =
      ((crc ^^^ b.toUInt16) &&& 0xFF).toBitVec.getLsbD i := by
    intro i hi
    rw [UInt16.toBitVec_and, BitVec.getLsbD_and, getLsbD_mask, decide_eq_true hi, Bool.and_true]
  apply UInt16.toBitVec_inj.mp
  rw [crcUpdate, crcBits, crc16Table_getD, UInt16.toBitVec_xor, toBitVec_repeat_crcShift,
    toBitVec_repeat_crcShift, Register.shifts_eq_low_xor _ 8 _ _ hlow, shiftRight_masked,
    BitVec.xor_comm]

theorem crc16_eq_foldl (data : List UInt8) : crc16 data = data.foldl crcBits 0xFFFF := by
  unfold crc16
  congr
  funext crc b
  exact crcUpdate_eq_crcBits crc b

theorem crc16_eq_crcBitwise (xs ys : List UInt8) :
    crc16 xs = crcBitwise 0xFFFF xs ∧ crc16 (xs ++ ys) = crcBitwise (crc16 xs) ys ∧
      crc16 (xs ++ ys) = ys.foldl crcUpdate (crc16 xs) := by
  refine ⟨crc16_eq_foldl xs, ?_, ?_⟩
  · rw [crc16_eq_foldl, crc16_eq_foldl, List.foldl_append]
    rfl
  · unfold crc16
    exact List.foldl_append

/-! ## The bits of a string -/

def byteBits (b : UInt8) : List Bool := (List.range 8).map b.toBitVec.getLsbD

/-- In the order in which they enter the register: the bytes from the first on, the bits of each
from the least significant on. -/
def bits (data : List UInt8) : List Bool := data.flatMap byteBits

@[simp] theorem length_byteBits (b : UInt8) : (byteBits b).length = 8 := by simp [byteBits]

@[simp] theorem bits_cons (b : UInt8) (data : List UInt8) :
    bits (b :: data) = byteBits b ++ bits data := rfl

theorem length_bits (data : List UInt8) : (bits data).length = 8 * data.length := by
  induction data with
  | nil => rfl
  | cons b data ih =>
    rw [bits_cons, List.length_append, length_byteBits, ih, List.length_cons]
    omega

@[simp] theorem bits_append (xs ys : List UInt8) : bits (xs ++ ys) = bits xs ++ bits ys :=
  List.flatMap_append

theorem byteBits_injective : Function.Injective byteBits := by
  intro a b h
  apply UInt8.toBitVec_inj.mp
  apply BitVec.eq_of_getLsbD_eq
  intro i hi
  have hbit : (byteBits a)[i]? = (byteBits b)[i]? := by rw [h]
  simpa [byteBits, hi] using hbit

theorem bits_injective : Function.Injective bits := by
  intro xs
  induction xs with
  | nil =>
    intro ys h
    have hlen := congrArg List.length h
    rw [length_bits, length_bits, List.length_nil] at hlen
    exact (List.eq_nil_of_length_eq_zero (by omega)).symm
  | cons x xs ih =>
    intro ys h
    cases ys with
    | nil =>
      have hlen := congrArg List.length h
      rw [length_bits, length_bits] at hlen
      simp at hlen
    | cons y ys =>
      rw [bits_cons, bits_cons] at h
      obtain ⟨hbyte, hrest⟩ := List.append_inj h (by simp)
      rw [byteBits_injective hbyte, ih hrest]

theorem pack_byteBits (b : UInt8) : Register.pack (byteBits b) = b.toUInt16.toBitVec := by
  ext i hi
  rcases Nat.lt_or_ge i 8 with hin | hout
  · simp [byteBits, hin]
  · simp [byteBits, hout]

/-- A string enters the register bit by bit. -/
theorem toBitVec_foldl_crcBits (crc : UInt16) (data : List UInt8) :
    (data.foldl crcBits crc).toBitVec =
      Register.feed crcPolynomial.toBitVec crc.toBitVec (bits data) := by
  induction data generalizing crc with
  | nil => rfl
  | cons b data ih =>
    have hbyte : (crcBits crc b).toBitVec =
        Register.feed crcPolynomial.toBitVec crc.toBitVec (byteBits b) := by
      rw [Register.feed_eq_shifts _ _ (by simp), pack_byteBits, length_byteBits, crcBits,
        toBitVec_repeat_crcShift, UInt16.toBitVec_xor]
    rw [List.foldl_cons, ih, hbyte, bits_cons, Register.feed_append]

/-! ## Bursts -/

theorem crc16_ne {xs ys : List UInt8} (hlen : xs.length = ys.length) (hne : xs ≠ ys)
    (hburst : Register.Burst 16 (bits xs) (bits ys)) : crc16 xs ≠ crc16 ys := by
  have hbits : (bits xs).length = (bits ys).length := by rw [length_bits, length_bits, hlen]
  intro h
  rw [crc16_eq_foldl, crc16_eq_foldl, ← UInt16.toBitVec_inj, toBitVec_foldl_crcBits,
    toBitVec_foldl_crcBits] at h
  exact Register.feed_ne_of_burst _ rfl _ hbits (bits_injective.ne hne) hburst h

/-- Damage to one byte is a burst. -/
theorem burst_of_byte (xs ys : List UInt8) (a b : UInt8) :
    Register.Burst 16 (bits (xs ++ a :: ys)) (bits (xs ++ b :: ys)) := by
  refine ⟨(bits xs).length, ?_⟩
  intro i hne
  rw [bits_append, bits_append, bits_cons, bits_cons] at hne
  have hbefore : i < (bits xs).length →
      ∀ c, (bits xs ++ (byteBits c ++ bits ys))[i]? = (bits xs)[i]? := by
    intro hi c
    exact List.getElem?_append_left hi
  have hbehind : (bits xs).length + 16 ≤ i → ∀ c, (bits xs ++ (byteBits c ++ bits ys))[i]? =
      (bits ys)[i - (bits xs).length - 8]? := by
    intro hi c
    rw [List.getElem?_append_right (by omega),
      List.getElem?_append_right (by rw [length_byteBits]; omega), length_byteBits]
  grind

/-- The bytes of a packet that its checksum is taken over. -/
def NodePacket.covered (p : NodePacket) : List UInt8 := p.memory.take (sizeofPacket p - 2 - 2)

theorem NodePacket.length_memory (p : NodePacket) : p.memory.length = 164 := by
  simp [memory, AppPayload.memory, NodePacket.header, p.appPayload.message.length_bytes]

theorem NodePacket.length_covered {p p' : NodePacket}
    (h : p'.appPayload.messageLen = p.appPayload.messageLen) :
    p.covered.length = p'.covered.length := by
  simp [covered, length_memory, sizeofPacket, formatAppMessageLen, h]

theorem isValidCrc_eq_false {p p' : NodePacket} (hvalid : isValidCrc p = true)
    (hlen : p'.appPayload.messageLen = p.appPayload.messageLen) (hcrc : p'.crc = p.crc)
    (hne : p.covered ≠ p'.covered)
    (hburst : Register.Burst 16 (bits p.covered) (bits p'.covered)) : isValidCrc p' = false := by
  have hdiff : packetCrc p ≠ packetCrc p' := crc16_ne (NodePacket.length_covered hlen) hne hburst
  have hstored : packetCrc p = p.crc := eq_of_beq hvalid
  rw [isValidCrc, beq_eq_false_iff_ne, hcrc, ← hstored]
  exact hdiff.symm

/-- No damage within sixteen consecutive bits goes unnoticed, neither by the checksum nor by the
check of a packet that was valid before. -/
theorem burst_detected :
    (∀ xs ys : List UInt8, xs.length = ys.length → xs ≠ ys →
      Register.Burst 16 (bits xs) (bits ys) → crc16 xs ≠ crc16 ys) ∧
    (∀ p p' : NodePacket, isValidCrc p = true →
      p'.appPayload.messageLen = p.appPayload.messageLen → p'.crc = p.crc →
      p.covered ≠ p'.covered → Register.Burst 16 (bits p.covered) (bits p'.covered) →
      isValidCrc p' = false) ∧
    ∀ p : NodePacket, p.appPayload.Fits →
      p.covered = p.header ++ (p.appPayload.header ++ p.appPayload.text) := by
  refine ⟨?_, ?_, ?_⟩
  · intro xs ys hlen hne hburst
    exact crc16_ne hlen hne hburst
  · intro p p' hvalid hlen hcrc hne hburst
    exact isValidCrc_eq_false hvalid hlen hcrc hne hburst
  · intro p hfits
    exact hfits.take_memory

/-- A packet with a text of one letter, sealed with its checksum. -/
def letter : NodePacket :=
  NodePacket.renewed
    ⟨0, 5, 0, 19, ⟨.known .delivery, 0, 5, 1, 1, Message.zero.memcpy [0x41], 0⟩, 0⟩

theorem covered_letter (a : UInt8) :
    { letter with senderAddr := a }.covered = a :: [5, 0, 19, 0, 0, 5, 1, 0, 1, 0x41] := by
  have hfits : { letter with senderAddr := a }.appPayload.Fits := show 1 ≤ 150 by decide
  have hheader : letter.appPayload.header = [0, 0, 5, 1, 0, 1] := rfl
  have htext : letter.appPayload.text = [0x41] := rfl
  apply hfits.take_memory.trans
  change [a, 5, 0, 19] ++ (letter.appPayload.header ++ letter.appPayload.text) = _
  rw [hheader, htext]
  rfl

theorem burst_detected_letter :
    crc16 [0] ≠ crc16 [1] ∧ isValidCrc { letter with senderAddr := 1 } = false := by
  refine ⟨burst_detected.1 [0] [1] rfl (by decide) (burst_of_byte [] [] 0 1), ?_⟩
  apply burst_detected.2.1 letter
  · exact isValidCrc_renewed (show 1 ≤ 150 by decide)
  · rfl
  · rfl
  · change { letter with senderAddr := 0 }.covered ≠ _
    rw [covered_letter, covered_letter]
    decide
  · change Register.Burst 16 (bits { letter with senderAddr := 0 }.covered) _
    rw [covered_letter, covered_letter]
    exact burst_of_byte [] _ 0 1

end MeshNet
