/-!
# The checksum of packets and messages

`crc16` reads one byte after another through a table of 256 entries; the table holds, for
every byte, the register after eight single-bit steps.
-/

namespace MeshNet

def crcPolynomial : UInt16 := 0xA001

/-- One turn of the inner loop that fills a table entry. -/
def crcShift (crc : UInt16) : UInt16 :=
  if crc &&& 1 = 1 then (crc >>> 1) ^^^ crcPolynomial else crc >>> 1

/-- What `init_crc16_table` leaves in the table. -/
def crc16Table : List UInt16 :=
  (List.range 256).map fun i => Nat.repeat crcShift 8 (UInt16.ofNat i)

def crcUpdate (crc : UInt16) (b : UInt8) : UInt16 :=
  (crc >>> 8) ^^^ crc16Table.getD ((crc ^^^ b.toUInt16) &&& 0xFF).toNat 0

@[irreducible] def crc16 (data : List UInt8) : UInt16 := data.foldl crcUpdate 0xFFFF

/-- The check value of this polynomial and start value over the digits one to nine. -/
example : crc16 [0x31, 0x32, 0x33, 0x34, 0x35, 0x36, 0x37, 0x38, 0x39] = 0x4B37 := by
  decide +kernel

end MeshNet
