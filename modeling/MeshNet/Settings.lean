/-!
# Settings of the mesh

The constants every program of the mesh is compiled with, and the numbering of ports:
the server listens on `serverPort`, node `addr` on the port `addr + 1` above it.
-/

namespace MeshNet

abbrev serverPort : UInt16 := 999

abbrev matrixSize : Nat := 10

abbrev nodeCount : Nat := matrixSize * matrixSize

abbrev appsCount : Nat := 4

/-- `TTL`, twice the side of the grid. -/
abbrev ttl : Int8 := 20

@[simp] abbrev maxMsgLen : Nat := 256

@[simp] abbrev appMessageLen : Nat := 150

abbrev broadcastRadius : UInt8 := 3

def nodePort (addr : UInt8) : UInt16 := serverPort + addr.toUInt16 + 1

def nodeAddr (port : UInt16) : UInt8 := (port - serverPort - 1).toUInt8

/-- `UINT8_MAX`, the address that stands for no route. -/
abbrev noAddr : UInt8 := 255

@[simp] theorem nodeAddr_nodePort (addr : UInt8) : nodeAddr (nodePort addr) = addr := by
  have h : nodePort addr - serverPort - 1 = addr.toUInt16 := by unfold nodePort; grind
  rw [nodeAddr, h, UInt8.toUInt8_toUInt16]

@[simp] theorem nodePort_inj {a b : UInt8} : nodePort a = nodePort b ↔ a = b :=
  ⟨fun h => by simpa using congrArg nodeAddr h, fun h => h ▸ rfl⟩

theorem nodePort_toNat (addr : UInt8) : (nodePort addr).toNat = 1000 + addr.toNat := by
  have := addr.toNat_lt
  simp only [nodePort, UInt16.toNat_add, UInt8.toNat_toUInt16]
  change ((999 + addr.toNat) % 65536 + 1) % 65536 = _
  omega

theorem nodePort_ne_serverPort (addr : UInt8) : nodePort addr ≠ serverPort := by
  intro h
  have := nodePort_toNat addr
  rw [h] at this
  change 999 = 1000 + addr.toNat at this
  omega

end MeshNet
