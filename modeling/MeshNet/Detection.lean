import MeshNet.Checksum

/-!
# How many flipped bits the checksum detects

The polynomial has an odd number of taps, so that the parity of a string is that of its checksum,
and its period is longer than any frame. Three flipped bits are always noticed, wherever they are;
four are not.
-/

namespace MeshNet
open Library

theorem parity_crcPolynomial : Register.parity crcPolynomial.toBitVec = true := by decide

/-- A one does not come back within the length of a frame. -/
theorem crcPolynomial_order {d : Nat} (hpos : 0 < d) (hd : d < 8 * maxMsgLen) :
    (Register.shift crcPolynomial.toBitVec)^[d] (Register.pack [true]) ≠ Register.pack [true] := by
  have hall : Register.avoids crcPolynomial.toBitVec (Register.pack [true]) (8 * maxMsgLen)
      (Register.shift crcPolynomial.toBitVec (Register.pack [true])) = true := by
    decide +kernel
  obtain ⟨d, rfl⟩ := Nat.exists_eq_succ_of_ne_zero hpos.ne'
  rw [Function.iterate_succ_apply]
  exact Register.ne_of_avoids _ hall (Nat.lt_of_succ_lt hd)

variable {xs ys : List UInt8}

theorem toBitVec_crc16 (xs : List UInt8) :
    (crc16 xs).toBitVec =
      Register.feed crcPolynomial.toBitVec (0xFFFF : UInt16).toBitVec (bits xs) := by
  rw [crc16_eq_foldl, toBitVec_foldl_crcBits]

theorem length_bits_eq (hlen : xs.length = ys.length) : (bits xs).length = (bits ys).length := by
  rw [length_bits, length_bits, hlen]

theorem crc16_ne_of_odd (hlen : xs.length = ys.length)
    (hodd : Register.flips (bits xs) (bits ys) % 2 = 1) : crc16 xs ≠ crc16 ys := by
  intro h
  rw [← UInt16.toBitVec_inj, toBitVec_crc16, toBitVec_crc16] at h
  exact Register.feed_ne_of_odd _ (by decide) parity_crcPolynomial _ (length_bits_eq hlen) hodd h

theorem crc16_ne_of_few (hlen : xs.length = ys.length) (hshort : xs.length ≤ maxMsgLen)
    (hne : xs ≠ ys) (hfew : Register.flips (bits xs) (bits ys) ≤ 3) : crc16 xs ≠ crc16 ys := by
  intro h
  rw [← UInt16.toBitVec_inj, toBitVec_crc16, toBitVec_crc16] at h
  refine Register.feed_ne_of_few _ (by decide) rfl parity_crcPolynomial _ ?_
    (length_bits_eq hlen) (bits_injective.ne hne) hfew h
  intro d hpos hd
  rw [length_bits] at hd
  exact crcPolynomial_order hpos (by omega)

/-- The check of a packet that was valid notices whatever its checksum does. -/
theorem isValidCrc_of_packetCrc_ne {p p' : NodePacket} (hvalid : isValidCrc p = true)
    (hcrc : p'.crc = p.crc) (hdiff : packetCrc p ≠ packetCrc p') : isValidCrc p' = false := by
  have hstored : packetCrc p = p.crc := eq_of_beq hvalid
  rw [isValidCrc, beq_eq_false_iff_ne, hcrc, ← hstored]
  exact hdiff.symm

theorem few_flips_detected :
    (∀ xs ys : List UInt8, xs.length = ys.length → xs.length ≤ maxMsgLen → xs ≠ ys →
      Register.flips (bits xs) (bits ys) ≤ 3 → crc16 xs ≠ crc16 ys) ∧
    (∀ xs ys : List UInt8, xs.length = ys.length →
      Register.flips (bits xs) (bits ys) % 2 = 1 → crc16 xs ≠ crc16 ys) ∧
    (∀ p p' : NodePacket, isValidCrc p = true →
      p'.appPayload.messageLen = p.appPayload.messageLen → p'.crc = p.crc →
      p.covered ≠ p'.covered → Register.flips (bits p.covered) (bits p'.covered) ≤ 3 →
      isValidCrc p' = false) ∧
    (∀ p p' : NodePacket, isValidCrc p = true →
      p'.appPayload.messageLen = p.appPayload.messageLen → p'.crc = p.crc →
      Register.flips (bits p.covered) (bits p'.covered) % 2 = 1 → isValidCrc p' = false) ∧
    ∃ xs ys : List UInt8, xs.length = ys.length ∧ Register.flips (bits xs) (bits ys) = 4 ∧
      crc16 xs = crc16 ys := by
  refine ⟨?_, ?_, ?_, ?_, ?_⟩
  · intro xs ys hlen hshort hne hfew
    exact crc16_ne_of_few hlen hshort hne hfew
  · intro xs ys hlen hodd
    exact crc16_ne_of_odd hlen hodd
  · intro p p' hvalid hlen hcrc hne hfew
    have hshort : p.covered.length ≤ maxMsgLen := by
      rw [NodePacket.covered, List.length_take, NodePacket.length_memory, maxMsgLen]
      omega
    exact isValidCrc_of_packetCrc_ne hvalid hcrc
      (crc16_ne_of_few (NodePacket.length_covered hlen) hshort hne hfew)
  · intro p p' hvalid hlen hcrc hodd
    exact isValidCrc_of_packetCrc_ne hvalid hcrc
      (crc16_ne_of_odd (NodePacket.length_covered hlen) hodd)
  · exact ⟨[0, 0, 0], [0x03, 0x40, 0x01], rfl, by decide, by decide +kernel⟩

/-- Two flips in a string, three in a byte, and one or five in the addresses of a packet. -/
theorem few_flips_detected_letter :
    crc16 [0, 0, 7] ≠ crc16 [1, 0, 6] ∧ crc16 [0] ≠ crc16 [7] ∧
      isValidCrc { letter with senderAddr := 1 } = false ∧
        isValidCrc { letter with senderAddr := 31 } = false := by
  refine ⟨few_flips_detected.1 [0, 0, 7] [1, 0, 6] rfl (by decide) (by decide) (by decide),
    few_flips_detected.2.1 [0] [7] rfl (by decide), ?_, ?_⟩
  · apply few_flips_detected.2.2.1 letter
    · exact isValidCrc_renewed (show 1 ≤ 150 by decide)
    · rfl
    · rfl
    · change { letter with senderAddr := 0 }.covered ≠ _
      rw [covered_letter, covered_letter]
      decide
    · change Register.flips (bits { letter with senderAddr := 0 }.covered) _ ≤ 3
      rw [covered_letter, covered_letter]
      decide
  · apply few_flips_detected.2.2.2.1 letter
    · exact isValidCrc_renewed (show 1 ≤ 150 by decide)
    · rfl
    · rfl
    · change Register.flips (bits { letter with senderAddr := 0 }.covered) _ % 2 = 1
      rw [covered_letter, covered_letter]
      decide

end MeshNet
