import MeshNet.Crc
import MeshNet.Settings
import MeshNet.Library.Words

/-!
# Requests, packets and their memory layout

The enumerations and the packed structures of `format.h` and `format_app.h`. An enumeration
variable that is filled from received bytes has type `Packed`, since nothing checks it. A
message array always has its full length; only its first `messageLen` bytes belong to the
message, the rest is whatever the memory held before.
-/

namespace MeshNet
open Library

/-! ## Enumerations -/

inductive RequestResult where
  | ok | err | unknown
  deriving DecidableEq, Repr

def RequestResult.toByte : RequestResult → UInt8
  | .ok => 0
  | .err => 1
  | .unknown => 2

inductive RequestSender where
  | client | node | server | undefined
  deriving DecidableEq, Repr

instance : Enumeration RequestSender where
  values := [.client, .node, .server, .undefined]
  code
    | .client => 0
    | .node => 1
    | .server => 2
    | .undefined => 3
  listed e := by cases e <;> rfl
  placed := by decide

inductive Request where
  | send | update | ping | notify | routeDirect | routeInverse | killNode | reviveNode
  | reset | broadcast | unicast | unicastContest | unicastFirst | undefined
  deriving DecidableEq, Repr

instance : Enumeration Request where
  values := [.send, .update, .ping, .notify, .routeDirect, .routeInverse, .killNode,
    .reviveNode, .reset, .broadcast, .unicast, .unicastContest, .unicastFirst, .undefined]
  code
    | .send => 0
    | .update => 1
    | .ping => 2
    | .notify => 3
    | .routeDirect => 4
    | .routeInverse => 5
    | .killNode => 6
    | .reviveNode => 7
    | .reset => 8
    | .broadcast => 9
    | .unicast => 10
    | .unicastContest => 11
    | .unicastFirst => 12
    | .undefined => 13
  listed e := by cases e <;> rfl
  placed := by decide

inductive AppRequest where
  | delivery | broadcast | unicast
  deriving DecidableEq, Repr

instance : Enumeration AppRequest where
  values := [.delivery, .broadcast, .unicast]
  code
    | .delivery => 0
    | .broadcast => 1
    | .unicast => 2
  listed e := by cases e <;> rfl
  placed := by decide

inductive NotifyType where
  | gotMessage | fail
  deriving DecidableEq, Repr

instance : Enumeration NotifyType where
  values := [.gotMessage, .fail]
  code
    | .gotMessage => 0
    | .fail => 1
  listed e := by cases e <;> rfl
  placed := by decide

/-! ## Messages -/

/-- `uint8_t message[APP_MESSAGE_LEN]`. -/
structure Message where
  bytes : List UInt8
  length_bytes : bytes.length = appMessageLen
  deriving DecidableEq

namespace Message

def zero : Message := ⟨List.replicate appMessageLen 0, List.length_replicate⟩

instance : Inhabited Message := ⟨zero⟩

/-- `memcpy` to the start of the array; bytes past its end are not represented. -/
def memcpy (m : Message) (bs : List UInt8) : Message where
  bytes := bs.take appMessageLen ++ m.bytes.drop bs.length
  length_bytes := by simp [m.length_bytes]; omega

theorem take_memcpy (m : Message) {bs : List UInt8} (h : bs.length ≤ appMessageLen) :
    (m.memcpy bs).bytes.take bs.length = bs := by
  simp [memcpy, List.take_of_length_le h]

theorem length_take (m : Message) {n : Nat} (h : n ≤ appMessageLen) :
    (m.bytes.take n).length = n := by
  simp [m.length_bytes, h]

end Message

/-! ## Payloads -/

structure AppPayload where
  reqType : Packed AppRequest
  addrFrom : UInt8
  addrTo : UInt8
  id : UInt16
  messageLen : UInt8
  message : Message
  crc : UInt16
  deriving DecidableEq

structure NodePacket where
  senderAddr : UInt8
  receiverAddr : UInt8
  localSenderAddr : UInt8
  timeToLive : Int8
  appPayload : AppPayload
  crc : UInt16
  deriving DecidableEq

structure NodeUpdate where
  pid : Int32
  port : UInt16
  addr : UInt8
  deriving DecidableEq

structure Notify where
  type : Packed NotifyType
  appMsgId : UInt16
  deriving DecidableEq

structure UnicastContest where
  req : Packed Request
  nodeAddr : UInt8
  appPayload : AppPayload
  deriving DecidableEq

/-- What the `void* payload` of a request points to. -/
inductive Payload where
  | addr (addr : UInt8)
  | packet (packet : NodePacket)
  | update (update : NodeUpdate)
  | notify (notify : Notify)
  | contest (contest : UnicastContest)
  deriving DecidableEq

def Payload.appPayload? : Payload → Option AppPayload
  | .packet p => some p.appPayload
  | .contest c => some c.appPayload
  | _ => none

/-- The five layouts of a frame behind its header. -/
inductive Layout where
  | addr | update | notify | packet | contest
  deriving DecidableEq, Repr

/-- The layout both ends use for a request; a reset carries nothing a reader looks at. -/
def Request.layout : Request → Option Layout
  | .ping | .killNode | .reviveNode => some .addr
  | .update => some .update
  | .notify => some .notify
  | .send | .routeDirect | .routeInverse | .broadcast | .unicast => some .packet
  | .unicastContest | .unicastFirst => some .contest
  | .reset | .undefined => none

/-! ## Sizes and checksums

The sizes are those the compiler gives the packed structures. -/

@[simp] abbrev sizeofAppPayload : Nat := 1 + 1 + 1 + 2 + 1 + appMessageLen + 2

@[simp] abbrev sizeofNodePacket : Nat := 1 + 1 + 1 + 1 + sizeofAppPayload + 2

@[simp] abbrev sizeofNodeUpdate : Nat := 4 + 2 + 1

@[simp] abbrev sizeofNotify : Nat := 1 + 2

@[simp] abbrev sizeofUnicastContest : Nat := 1 + 1 + sizeofAppPayload

/-- `MSG_BASE_LEN`: the length byte, the request and the sender. -/
@[simp] abbrev msgBaseLen : Nat := 1 + 1 + 1

/-- The result is a `uint8_t`. -/
def formatAppMessageLen (a : AppPayload) : UInt8 :=
  UInt8.ofNat (1 + 1 + 2 + 1 + a.messageLen.toNat + 1 + 2)

def sizeofPacket (p : NodePacket) : Nat :=
  sizeofNodePacket - sizeofAppPayload + (formatAppMessageLen p.appPayload).toNat

/-- The fields in front of the message, as they lie in memory and in a frame. -/
def AppPayload.header (a : AppPayload) : List UInt8 :=
  [a.reqType.toByte, a.addrFrom, a.addrTo] ++ bytes16 a.id ++ [a.messageLen]

def AppPayload.memory (a : AppPayload) : List UInt8 :=
  a.header ++ (a.message.bytes ++ bytes16 a.crc)

/-- The four bytes of addresses and time to live. -/
def NodePacket.header (p : NodePacket) : List UInt8 :=
  [p.senderAddr, p.receiverAddr, p.localSenderAddr, p.timeToLive.toUInt8]

def NodePacket.memory (p : NodePacket) : List UInt8 :=
  p.header ++ (p.appPayload.memory ++ bytes16 p.crc)

/-- `app_crc`: over the structure up to the end of the message. -/
def appCrc (a : AppPayload) : UInt16 :=
  crc16 (a.memory.take ((formatAppMessageLen a).toNat - 2))

/-- `packet_crc`: over the structure up to the end of the message. -/
def packetCrc (p : NodePacket) : UInt16 :=
  crc16 (p.memory.take (sizeofPacket p - 2 - 2))

/-- The message proper: its first `messageLen` bytes. -/
def AppPayload.text (a : AppPayload) : List UInt8 :=
  a.message.bytes.take a.messageLen.toNat

/-- The message fits the array, so that its length is what `messageLen` says. -/
def AppPayload.Fits (a : AppPayload) : Prop := a.messageLen.toNat ≤ appMessageLen

instance (a : AppPayload) : Decidable a.Fits := by unfold AppPayload.Fits; infer_instance

namespace AppPayload

variable {a : AppPayload}

theorem fits_iff : a.Fits ↔ a.messageLen.toNat ≤ 150 := Iff.rfl

@[simp] theorem length_header : a.header.length = 6 := rfl

theorem Fits.length_text (h : a.Fits) : a.text.length = a.messageLen.toNat :=
  a.message.length_take h

theorem Fits.formatAppMessageLen (h : a.Fits) :
    (formatAppMessageLen a).toNat = 8 + a.messageLen.toNat := by
  rw [fits_iff] at h
  simp only [MeshNet.formatAppMessageLen, UInt8.toNat_ofNat']
  omega

theorem Fits.sizeofPacket {p : NodePacket} (h : p.appPayload.Fits) :
    sizeofPacket p = 14 + p.appPayload.messageLen.toNat := by
  rw [MeshNet.sizeofPacket, h.formatAppMessageLen]
  change 6 + _ = _
  omega

/-- Within the array, the bytes behind the message do not reach the checksum. -/
theorem Fits.appCrc (h : a.Fits) : appCrc a = crc16 (a.header ++ a.text) := by
  have hlen : a.messageLen.toNat ≤ a.message.bytes.length := a.message.length_bytes.symm ▸ h
  rw [MeshNet.appCrc, h.formatAppMessageLen, memory, text,
    show 8 + a.messageLen.toNat - 2 = a.header.length + a.messageLen.toNat by simp; omega,
    List.take_length_add_append, List.take_append_of_le_length hlen]

/-- What the checksum of a packet is taken over: the headers and the message proper. -/
theorem Fits.take_memory {p : NodePacket} (h : p.appPayload.Fits) :
    p.memory.take (MeshNet.sizeofPacket p - 2 - 2) =
      p.header ++ (p.appPayload.header ++ p.appPayload.text) := by
  have hlen : p.appPayload.messageLen.toNat ≤ p.appPayload.message.bytes.length :=
    p.appPayload.message.length_bytes.symm ▸ h
  have hhead : p.header.length = 4 := rfl
  rw [h.sizeofPacket, NodePacket.memory, memory, text,
    show 14 + p.appPayload.messageLen.toNat - 2 - 2 =
      p.header.length + (p.appPayload.header.length + p.appPayload.messageLen.toNat) by
        simp [hhead]; omega,
    List.take_length_add_append, List.append_assoc, List.take_length_add_append,
    List.append_assoc, List.take_append_of_le_length hlen]

theorem Fits.packetCrc {p : NodePacket} (h : p.appPayload.Fits) :
    packetCrc p = crc16 (p.header ++ (p.appPayload.header ++ p.appPayload.text)) := by
  rw [MeshNet.packetCrc, h.take_memory]

end AppPayload

end MeshNet
