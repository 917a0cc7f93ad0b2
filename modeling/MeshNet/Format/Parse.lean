import MeshNet.Format.Types
import MeshNet.Library.Walk

/-!
# Reading frames

`format_parse` and its helpers. They read the buffer a frame was received into, without its
length byte, and are not told how many bytes were received. The structure they fill is fresh
from `malloc`, whose message array holds the arbitrary `heap`.
-/

namespace MeshNet
open Library Reader

def formatDefineSender (mem : Nat → UInt8) : Packed RequestSender := .ofByte (mem 1)

/-- The declared length is a `uint8_t`, the number of received bytes is not. -/
def formatIsMessageCorrect (bufLen : Nat) (msgLen : UInt8) : Bool :=
  if bufLen > 1 then bufLen == msgLen.toNat else false

/-- Skip the request and the sender. -/
def skipBase : Reader Unit := seek (1 + 1)

def word : Reader UInt16 := do
  let lo ← byte
  let hi ← byte
  return word16 lo hi

def dword : Reader UInt32 := do
  let b0 ← byte
  let b1 ← byte
  let b2 ← byte
  let b3 ← byte
  return word32 b0 b1 b2 b3

/-- `memcpy` of `n` received bytes into the message array, whatever its length. -/
def readMessage (heap : Message) (n : UInt8) : Reader Message := do
  if n ≠ 0 then
    let bs ← bytes n.toNat
    store n.toNat
    return heap.memcpy bs
  else
    return heap

def formatAppParseMessage (heap : Message) : Reader AppPayload := do
  let reqType ← Packed.ofByte <$> byte
  let addrFrom ← byte
  let addrTo ← byte
  let id ← word
  let messageLen ← byte
  let message ← readMessage heap messageLen
  let crc ← word
  return { reqType, addrFrom, addrTo, id, messageLen, message, crc }

def parseAddrPayload : Reader UInt8 := do
  skipBase
  byte

/-- The application payload is read through a copy of the pointer, which is then moved on by
`format_app_message_len`. -/
def parseRoutePayload (heap : Message) : Reader NodePacket := do
  skipBase
  let senderAddr ← byte
  let receiverAddr ← byte
  let localSenderAddr ← byte
  let timeToLive ← UInt8.toInt8 <$> byte
  let p ← position
  let appPayload ← formatAppParseMessage heap
  seek (p + (formatAppMessageLen appPayload).toNat)
  let crc ← word
  return { senderAddr, receiverAddr, localSenderAddr, timeToLive, appPayload, crc }

def parseNodeUpdatePayload : Reader NodeUpdate := do
  skipBase
  let port ← word
  let addr ← byte
  let pid ← UInt32.toInt32 <$> dword
  return { pid, port, addr }

def parseNotifyPayload : Reader Notify := do
  skipBase
  let type ← Packed.ofByte <$> byte
  let appMsgId ← word
  return { type, appMsgId }

def parseUnicastContestPayload (heap : Message) : Reader UnicastContest := do
  skipBase
  let req ← Packed.ofByte <$> byte
  let nodeAddr ← byte
  let appPayload ← formatAppParseMessage heap
  return { req, nodeAddr, appPayload }

/-- The request, the payload (none where the pointer stays `NULL`) and whether
`not_implemented` was reached, which raises `SIGTERM`. -/
structure Parsed where
  req : Packed Request
  payload : Option Payload
  died : Bool
  deriving DecidableEq

def formatParse (heap : Message) : Reader Parsed := do
  let cmd : Packed Request ← Packed.ofByte <$> byte
  match cmd with
  | .known .ping | .known .reviveNode | .known .killNode =>
    let addr ← parseAddrPayload
    return ⟨cmd, some (.addr addr), false⟩
  | .known .reset => return ⟨cmd, none, false⟩
  | .known .send | .known .routeDirect | .known .routeInverse | .known .broadcast
  | .known .unicast =>
    let packet ← parseRoutePayload heap
    return ⟨cmd, some (.packet packet), false⟩
  | .known .update =>
    let update ← parseNodeUpdatePayload
    return ⟨cmd, some (.update update), false⟩
  | .known .notify =>
    let notify ← parseNotifyPayload
    return ⟨cmd, some (.notify notify), false⟩
  | .known .unicastContest | .known .unicastFirst =>
    let contest ← parseUnicastContestPayload heap
    return ⟨cmd, some (.contest contest), false⟩
  | .known .undefined => return ⟨cmd, none, false⟩
  | .other .. => return ⟨cmd, none, true⟩

end MeshNet
