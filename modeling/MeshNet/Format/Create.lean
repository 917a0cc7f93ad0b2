import MeshNet.Format.Types

/-!
# Writing frames

`format_create` and its helpers, one pointer walk over the caller's buffer for each layout.
A walk always moves forward by what it has just copied, so what it leaves in the buffer is a
list of bytes from the buffer's start; the buffer keeps its former contents behind them.
-/

namespace MeshNet
open Library

/-- The length stored in `*len` and the bytes written, from the start of the buffer. -/
structure Frame where
  len : UInt8
  bytes : List UInt8
  deriving DecidableEq

/-- The first `*len` bytes of a buffer that held `buf` before the frame was written: what a
caller hands to `io_write_all`. -/
def Frame.sent (f : Frame) (buf : Nat → UInt8) : List UInt8 :=
  (f.bytes ++ (List.range (f.len.toNat - f.bytes.length)).map
    fun i => buf (f.bytes.length + i)).take f.len.toNat

def createBase (msgLen : UInt8) (cmd : Request) (sender : RequestSender) : List UInt8 :=
  [msgLen, Enumeration.code cmd, Enumeration.code sender]

def formatAppCreateMessage (a : AppPayload) : List UInt8 :=
  a.header ++ (if a.messageLen ≠ 0 then a.text else []) ++ bytes16 a.crc

/-- A request that carries one address byte, or nothing where the payload is `NULL`. -/
def createAddr (req : Request) (sender : RequestSender) : Option UInt8 → Frame
  | some addr =>
    let len : UInt8 := UInt8.ofNat (1 + msgBaseLen)
    ⟨len, createBase len req sender ++ [addr]⟩
  | none =>
    let len : UInt8 := 1 + 1 + 1
    ⟨len, createBase len req sender⟩

/-- The transmitted process id is the caller's own, not the payload's. -/
def createUpdate (getpid : Int32) (sender : RequestSender) (u : NodeUpdate) : Frame :=
  let len : UInt8 := UInt8.ofNat (sizeofNodeUpdate + msgBaseLen)
  ⟨len, createBase len .update sender ++ (bytes16 u.port ++ [u.addr] ++ bytes32 getpid.toUInt32)⟩

def createNotify (sender : RequestSender) (n : Notify) : Frame :=
  let len : UInt8 := UInt8.ofNat (msgBaseLen + sizeofNotify)
  ⟨len, createBase len .notify sender ++ ([n.type.toByte] ++ bytes16 n.appMsgId)⟩

def createPacket (req : Request) (sender : RequestSender) (p : NodePacket) : Frame :=
  let len := UInt8.ofNat (sizeofPacket p + msgBaseLen)
  ⟨len, createBase len req sender ++
    (p.header ++ (formatAppCreateMessage p.appPayload ++ bytes16 p.crc))⟩

/-- The declared length is that of the whole structure, whatever the message length. -/
def createContest (req : Request) (sender : RequestSender) (c : UnicastContest) : Frame :=
  let len : UInt8 := UInt8.ofNat (sizeofUnicastContest + msgBaseLen)
  ⟨len, createBase len req sender ++
    ([c.req.toByte, c.nodeAddr] ++ formatAppCreateMessage c.appPayload)⟩

/-- `format_create`. No frame comes from a request it does not implement, nor from a payload
of another request's type, which no caller passes. -/
def formatCreate (getpid : Int32) (req : Request) (payload : Option Payload)
    (sender : RequestSender) : Option Frame :=
  match req, payload with
  | .ping, none | .killNode, none | .reviveNode, none | .reset, none =>
    some (createAddr req sender none)
  | .ping, some (.addr a) | .killNode, some (.addr a) | .reviveNode, some (.addr a)
  | .reset, some (.addr a) => some (createAddr req sender (some a))
  | .update, some (.update u) => some (createUpdate getpid sender u)
  | .notify, some (.notify n) => some (createNotify sender n)
  | .routeDirect, some (.packet p) | .routeInverse, some (.packet p) | .send, some (.packet p)
  | .broadcast, some (.packet p) | .unicast, some (.packet p) => some (createPacket req sender p)
  | .unicastContest, some (.contest c) | .unicastFirst, some (.contest c) =>
    some (createContest req sender c)
  | _, _ => none

/-- Which walk made a frame, and from what. -/
theorem formatCreate_cases {getpid : Int32} {req : Request} {payload : Option Payload}
    {sender : RequestSender} {f : Frame} (h : formatCreate getpid req payload sender = some f) :
    (payload = none ∧ f = createAddr req sender none) ∨
    (∃ a, payload = some (.addr a) ∧ (req.layout = some .addr ∨ req = .reset) ∧
      f = createAddr req sender (some a)) ∨
    (∃ u, payload = some (.update u) ∧ req = .update ∧ f = createUpdate getpid sender u) ∨
    (∃ n, payload = some (.notify n) ∧ req = .notify ∧ f = createNotify sender n) ∨
    (∃ p, payload = some (.packet p) ∧ req.layout = some .packet ∧
      f = createPacket req sender p) ∨
    (∃ c, payload = some (.contest c) ∧ req.layout = some .contest ∧
      f = createContest req sender c) := by
  rcases payload with _ | payload
  · cases req <;> simp_all [formatCreate]
  · cases payload <;> cases req <;> simp_all [formatCreate, Request.layout]

theorem formatCreate_packet {getpid : Int32} {req : Request} (sender : RequestSender)
    (p : NodePacket) (h : req.layout = some .packet) :
    formatCreate getpid req (some (.packet p)) sender = some (createPacket req sender p) := by
  cases req <;> simp_all [Request.layout, formatCreate]

theorem formatCreate_contest {getpid : Int32} {req : Request} (sender : RequestSender)
    (c : UnicastContest) (h : req.layout = some .contest) :
    formatCreate getpid req (some (.contest c)) sender = some (createContest req sender c) := by
  cases req <;> simp_all [Request.layout, formatCreate]

/-! ## Lengths -/

@[simp] theorem length_createBase (l : UInt8) (cmd : Request) (sender : RequestSender) :
    (createBase l cmd sender).length = 3 := rfl

/-- The guard on an empty message changes nothing: there is then nothing to copy. -/
theorem formatAppCreateMessage_eq (a : AppPayload) :
    formatAppCreateMessage a = a.header ++ (a.text ++ bytes16 a.crc) := by
  by_cases h : a.messageLen = 0 <;> simp [formatAppCreateMessage, AppPayload.text, h]

theorem AppPayload.Fits.length_createMessage {a : AppPayload} (h : a.Fits) :
    (formatAppCreateMessage a).length = 8 + a.messageLen.toNat := by
  simp [formatAppCreateMessage_eq, h.length_text]
  omega

/-- A walk that stops short of its declared length leaves the rest as the buffer had it. -/
theorem Frame.sent_eq_append {f : Frame} (h : f.bytes.length ≤ f.len.toNat) (buf : Nat → UInt8) :
    ∃ rest, f.sent buf = f.bytes ++ rest := by
  refine ⟨(List.range (f.len.toNat - f.bytes.length)).map
    fun i => buf (f.bytes.length + i), List.take_of_length_le ?_⟩
  simp
  omega

theorem Frame.length_sent {f : Frame} (h : f.bytes.length ≤ f.len.toNat) (buf : Nat → UInt8) :
    (f.sent buf).length = f.len.toNat := by
  simp [Frame.sent]
  omega

theorem len_createPacket (req : Request) (sender : RequestSender) {p : NodePacket}
    (h : p.appPayload.Fits) :
    (createPacket req sender p).len.toNat = 17 + p.appPayload.messageLen.toNat := by
  have hml := AppPayload.fits_iff.mp h
  simp only [createPacket, h.sizeofPacket, UInt8.toNat_ofNat', msgBaseLen]
  omega

theorem length_createPacket (req : Request) (sender : RequestSender) {p : NodePacket}
    (h : p.appPayload.Fits) :
    (createPacket req sender p).bytes.length = 17 + p.appPayload.messageLen.toNat := by
  simp [createPacket, h.length_createMessage, NodePacket.header]
  omega

theorem length_createContest {req : Request} {sender : RequestSender} {c : UnicastContest}
    (h : c.appPayload.Fits) :
    (createContest req sender c).bytes.length = 13 + c.appPayload.messageLen.toNat := by
  simp [createContest, h.length_createMessage]
  omega

theorem len_createContest (req : Request) (sender : RequestSender) (c : UnicastContest) :
    (createContest req sender c).len.toNat = 163 := rfl

/-- No walk writes behind the length it declares. -/
theorem formatCreate_length_le {getpid : Int32} {req : Request} {payload : Option Payload}
    {sender : RequestSender} {f : Frame} (h : formatCreate getpid req payload sender = some f)
    (hfits : ∀ p ∈ payload, ∀ a ∈ p.appPayload?, a.Fits) : f.bytes.length ≤ f.len.toNat := by
  obtain ⟨-, rfl⟩ | ⟨a, -, -, rfl⟩ | ⟨u, -, -, rfl⟩ | ⟨n, -, -, rfl⟩ | ⟨p, rfl, -, rfl⟩ |
    ⟨c, rfl, -, rfl⟩ := formatCreate_cases h
  · exact Nat.le_refl 3
  · exact Nat.le_refl 4
  · exact Nat.le_refl 10
  · exact Nat.le_refl 6
  · have hp : p.appPayload.Fits := hfits _ rfl _ rfl
    exact Nat.le_of_eq ((length_createPacket _ _ hp).trans (len_createPacket _ _ hp).symm)
  · have hc : c.appPayload.Fits := hfits _ rfl _ rfl
    have := AppPayload.fits_iff.mp hc
    rw [len_createContest, length_createContest hc]
    omega

/-- A frame starts with the length it declares. -/
theorem formatCreate_head {getpid : Int32} {req : Request} {payload : Option Payload}
    {sender : RequestSender} {f : Frame} (h : formatCreate getpid req payload sender = some f) :
    ∃ body, f.bytes = f.len :: Enumeration.code req :: Enumeration.code sender :: body := by
  obtain ⟨-, rfl⟩ | ⟨a, -, -, rfl⟩ | ⟨u, -, rfl, rfl⟩ | ⟨n, -, rfl, rfl⟩ | ⟨p, -, -, rfl⟩ |
    ⟨c, -, -, rfl⟩ := formatCreate_cases h <;> exact ⟨_, rfl⟩

end MeshNet
