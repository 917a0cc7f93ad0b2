import MeshNet.Format.Create
import MeshNet.Format.Parse

/-!
# Reading back what was written

Every frame `formatCreate` produces is accepted at its declared length, names its sender and
is parsed to the request and the payload it was made from. The message array of the parsed
payload is the one `malloc` returned, overwritten with the message proper.
-/

namespace MeshNet
open Library Reader

/-! ## What arrives of a payload -/

/-- The payload as its reader has it, in an array that held `heap`. -/
def AppPayload.received (heap : Message) (a : AppPayload) : AppPayload :=
  { a with message := heap.memcpy a.text }

def NodePacket.received (heap : Message) (p : NodePacket) : NodePacket :=
  { p with appPayload := p.appPayload.received heap }

def UnicastContest.received (heap : Message) (c : UnicastContest) : UnicastContest :=
  { c with appPayload := c.appPayload.received heap }

def Payload.received (heap : Message) : Payload → Payload
  | .packet p => .packet (p.received heap)
  | .contest c => .contest (c.received heap)
  | payload => payload

theorem AppPayload.Fits.text_received {a : AppPayload} (h : a.Fits) (heap : Message) :
    (a.received heap).text = a.text := by
  have hlen := h.length_text
  have hle : a.text.length ≤ appMessageLen := hlen ▸ h
  calc (a.received heap).text
      = (heap.memcpy a.text).bytes.take a.text.length := by rw [hlen]; rfl
    _ = a.text := heap.take_memcpy hle

@[simp] theorem AppPayload.fits_received {heap : Message} {a : AppPayload} :
    (a.received heap).Fits ↔ a.Fits := Iff.rfl

/-- The checksum of a packet is that of its bytes on the wire. -/
theorem AppPayload.Fits.packetCrc_received {p : NodePacket} (h : p.appPayload.Fits)
    (heap : Message) : MeshNet.packetCrc (p.received heap) = MeshNet.packetCrc p := by
  have h' : (p.received heap).appPayload.Fits := h
  rw [h.packetCrc, h'.packetCrc]
  show crc16 (p.header ++ (p.appPayload.header ++ (p.appPayload.received heap).text)) = _
  rw [h.text_received]

/-- Equal in every field, the messages being compared on their first `messageLen` bytes. -/
def AppPayload.Agrees (a b : AppPayload) : Prop :=
  a.reqType = b.reqType ∧ a.addrFrom = b.addrFrom ∧ a.addrTo = b.addrTo ∧ a.id = b.id ∧
    a.messageLen = b.messageLen ∧ a.text = b.text ∧ a.crc = b.crc

def Payload.Agrees : Payload → Payload → Prop
  | .packet p, .packet q =>
    p.senderAddr = q.senderAddr ∧ p.receiverAddr = q.receiverAddr ∧
      p.localSenderAddr = q.localSenderAddr ∧ p.timeToLive = q.timeToLive ∧
      p.appPayload.Agrees q.appPayload ∧ p.crc = q.crc
  | .contest c, .contest d =>
    c.req = d.req ∧ c.nodeAddr = d.nodeAddr ∧ c.appPayload.Agrees d.appPayload
  | p, q => p = q

/-- The message of the payload, if it has one, fits the array. -/
def Payload.Fits (payload : Payload) : Prop := ∀ a ∈ payload.appPayload?, a.Fits

theorem AppPayload.Fits.received_agrees {a : AppPayload} (h : a.Fits) (heap : Message) :
    (a.received heap).Agrees a :=
  ⟨rfl, rfl, rfl, rfl, rfl, h.text_received heap, rfl⟩

theorem Payload.Fits.received_agrees {payload : Payload} (h : payload.Fits) (heap : Message) :
    (payload.received heap).Agrees payload := by
  cases payload with
  | packet p => exact ⟨rfl, rfl, rfl, rfl, (h p.appPayload rfl).received_agrees heap, rfl⟩
  | contest c => exact ⟨rfl, rfl, (h c.appPayload rfl).received_agrees heap⟩
  | _ => rfl

/-! ## One reader for each layout -/

variable {mem : Nat → UInt8} (heap : Message)

theorem readMessage_holds {p : Nat} {n : UInt8} {bs : List UInt8} (hn : bs.length = n.toNat)
    (h : Holds mem p bs) (w : Walk) (hw : w.pos = p) :
    (readMessage heap n mem w).1 = heap.memcpy bs ∧
      (readMessage heap n mem w).2.pos = p + n.toNat := by
  subst hw
  by_cases hz : n = 0
  · have hbs : bs = [] := List.length_eq_zero_iff.mp (by simp [hn, hz])
    simp [readMessage, hz, hbs, Message.memcpy]
  · have hr := h.read
    rw [hn] at hr
    simp [readMessage, hz, hr]

theorem formatAppParseMessage_holds {p : Nat} {a : AppPayload} (ha : a.Fits)
    (h : Holds mem p (formatAppCreateMessage a)) (w : Walk) (hw : w.pos = p) :
    (formatAppParseMessage heap mem w).1 = a.received heap := by
  subst hw
  simp only [formatAppCreateMessage_eq, AppPayload.header, bytes16, List.cons_append,
    List.nil_append, holds_cons, holds_append, holds_nil, Nat.add_assoc, Nat.reduceAdd,
    ha.length_text] at h
  obtain ⟨h0, h1, h2, h3, h4, h5, htext, hc0, hc1, -⟩ := h
  have hmsg := readMessage_holds heap ha.length_text htext
  simp [formatAppParseMessage, word, Nat.add_assoc, h0, h1, h2, h3, h4, h5, hmsg, hc0, hc1,
    AppPayload.received]

theorem parseRoutePayload_holds {p : NodePacket} (hp : p.appPayload.Fits)
    (h : Holds mem 2 (p.header ++ (formatAppCreateMessage p.appPayload ++ bytes16 p.crc)))
    (w : Walk) : (parseRoutePayload heap mem w).1 = p.received heap := by
  simp only [NodePacket.header, List.cons_append, List.nil_append, holds_cons,
    holds_append, Nat.reduceAdd, hp.length_createMessage, bytes16, holds_nil] at h
  obtain ⟨h0, h1, h2, h3, happ, hc0, hc1, -⟩ := h
  have hmsg := formatAppParseMessage_holds heap hp happ
  have hlen : (formatAppMessageLen (p.appPayload.received heap)).toNat =
      8 + p.appPayload.messageLen.toNat := AppPayload.Fits.formatAppMessageLen hp
  simp [parseRoutePayload, skipBase, word, h0, h1, h2, h3, hmsg, hlen, hc0, hc1,
    NodePacket.received]

theorem parseUnicastContestPayload_holds {c : UnicastContest} (hc : c.appPayload.Fits)
    (h : Holds mem 2 ([c.req.toByte, c.nodeAddr] ++ formatAppCreateMessage c.appPayload))
    (w : Walk) : (parseUnicastContestPayload heap mem w).1 = c.received heap := by
  simp only [List.cons_append, List.nil_append, holds_cons, Nat.reduceAdd] at h
  obtain ⟨h0, h1, happ⟩ := h
  have hmsg := formatAppParseMessage_holds heap hc happ
  simp [parseUnicastContestPayload, skipBase, h0, h1, hmsg, UnicastContest.received]

theorem parseNodeUpdatePayload_holds {u : NodeUpdate} {pid : Int32}
    (h : Holds mem 2 (bytes16 u.port ++ [u.addr] ++ bytes32 pid.toUInt32)) (w : Walk) :
    (parseNodeUpdatePayload mem w).1 = { u with pid := pid } := by
  simp only [bytes16, bytes32, List.cons_append, List.nil_append, holds_cons, Nat.reduceAdd] at h
  obtain ⟨h0, h1, h2, h3, h4, h5, h6, -⟩ := h
  simp [parseNodeUpdatePayload, skipBase, word, dword, h0, h1, h2, h3, h4, h5, h6]

theorem parseNotifyPayload_holds {n : Notify}
    (h : Holds mem 2 ([n.type.toByte] ++ bytes16 n.appMsgId)) (w : Walk) :
    (parseNotifyPayload mem w).1 = n := by
  simp only [bytes16, List.cons_append, List.nil_append, holds_cons, Nat.reduceAdd] at h
  obtain ⟨h0, h1, h2, -⟩ := h
  simp [parseNotifyPayload, skipBase, word, h0, h1, h2]

/-! ## The whole format -/

/-- The reader of a layout is the one that is run. -/
theorem formatParse_layout {req : Request} (hmem : mem 0 = Enumeration.code req)
    (l : Layout) (hl : req.layout = some l) :
    (formatParse heap mem {}).1 = ⟨.known req, some (match l with
      | .addr => .addr (mem 2)
      | .update => .update (parseNodeUpdatePayload mem { pos := 1, reads := [0] }).1
      | .notify => .notify (parseNotifyPayload mem { pos := 1, reads := [0] }).1
      | .packet => .packet (parseRoutePayload heap mem { pos := 1, reads := [0] }).1
      | .contest => .contest (parseUnicastContestPayload heap mem { pos := 1, reads := [0] }).1),
      false⟩ := by
  have hcmd : (Packed.ofByte (mem 0) : Packed Request) = .known req := by
    rw [hmem]
    exact Packed.ofByte_toByte (.known req)
  cases req <;> cases hl <;> simp [formatParse, hcmd, parseAddrPayload, skipBase]

/-- What a reader makes of a frame, whoever wrote it. -/
theorem formatParse_create {getpid : Int32} {req : Request} {payload : Payload}
    {sender : RequestSender} {f : Frame}
    (h : formatCreate getpid req (some payload) sender = some f) (hreq : req ≠ .reset)
    (hfits : payload.Fits) (hpid : ∀ u, payload = .update u → u.pid = getpid)
    (hmem : Holds mem 0 f.bytes.tail) :
    formatDefineSender mem = .known sender ∧
      (formatParse heap mem {}).1 = ⟨.known req, some (payload.received heap), false⟩ := by
  obtain ⟨body, hbytes⟩ := formatCreate_head h
  have hcode : mem 0 = Enumeration.code req ∧ mem 1 = Enumeration.code sender ∧
      Holds mem 2 body := by simpa [hbytes] using hmem
  obtain ⟨h0, h1, hbody⟩ := hcode
  have hsender : formatDefineSender mem = .known sender := by
    rw [formatDefineSender, h1]
    exact Packed.ofByte_toByte (.known sender)
  refine ⟨hsender, ?_⟩
  obtain ⟨hp, -⟩ | ⟨a, ha, hl, rfl⟩ | ⟨u, hu, rfl, rfl⟩ | ⟨n, hn, rfl, rfl⟩ | ⟨p, hp, hl, rfl⟩ |
    ⟨c, hc, hl, rfl⟩ := formatCreate_cases h
  · cases hp
  · cases ha
    cases hbytes
    have h2 : mem 2 = a := (holds_cons.mp hbody).1
    rw [formatParse_layout heap h0 .addr (hl.resolve_right hreq), h2]
    rfl
  · cases hu
    cases hbytes
    rw [formatParse_layout heap h0 .update rfl]
    simp only [parseNodeUpdatePayload_holds hbody, ← hpid u rfl]
    rfl
  · cases hn
    cases hbytes
    rw [formatParse_layout heap h0 .notify rfl]
    simp only [parseNotifyPayload_holds hbody]
    rfl
  · cases hp
    cases hbytes
    rw [formatParse_layout heap h0 .packet hl]
    simp only [parseRoutePayload_holds heap (hfits p.appPayload rfl) hbody]
    rfl
  · cases hc
    cases hbytes
    rw [formatParse_layout heap h0 .contest hl]
    simp only [parseUnicastContestPayload_holds heap (hfits c.appPayload rfl) hbody]
    rfl

/-- The transmitted bytes of a frame: its length, then what the reader's buffer holds. -/
theorem formatCreate_sent {getpid : Int32} {req : Request} {payload : Option Payload}
    {sender : RequestSender} {f : Frame} (h : formatCreate getpid req payload sender = some f)
    (hfits : ∀ p ∈ payload, p.Fits) (buf : Nat → UInt8) :
    ∃ body, f.sent buf = f.len :: body ∧ body.length + 1 = f.len.toNat ∧ 2 ≤ body.length ∧
      ∀ stack, Holds (received body stack) 0 f.bytes.tail := by
  have hle := formatCreate_length_le h hfits
  obtain ⟨tail, hbytes⟩ := formatCreate_head h
  obtain ⟨rest, hrest⟩ := Frame.sent_eq_append hle buf
  have hsent : f.sent buf = f.len :: (f.bytes.tail ++ rest) := by simp [hrest, hbytes]
  have hlen := Frame.length_sent hle buf
  refine ⟨f.bytes.tail ++ rest, hsent, by simpa [hsent] using hlen, by simp [hbytes],
    fun stack => ?_⟩
  exact (holds_append.mp (holds_received _ stack)).1

theorem formatIsMessageCorrect_sub_one {n : Nat} {len : UInt8} (hn : n + 1 = len.toNat)
    (h : 2 ≤ n) : formatIsMessageCorrect n (len - 1) = true := by
  have hle : (1 : UInt8) ≤ len := UInt8.le_iff_toNat_le.mpr (by simp; omega)
  have hsub : (len - 1).toNat = len.toNat - 1 := UInt8.toNat_sub_of_le _ _ hle
  simp [formatIsMessageCorrect, hsub]
  omega

/-- Decoding undoes encoding over the whole wire format. -/
theorem formatCreate_roundtrip {getpid : Int32} {req : Request} {payload : Payload}
    {sender : RequestSender} {f : Frame}
    (h : formatCreate getpid req (some payload) sender = some f) (hreq : req ≠ .reset)
    (hfits : payload.Fits) (hpid : ∀ u, payload = .update u → u.pid = getpid)
    (buf stack : Nat → UInt8) (heap : Message) :
    ∃ body, f.sent buf = f.len :: body ∧ (f.sent buf).length = f.len.toNat ∧
      formatIsMessageCorrect body.length (f.len - 1) = true ∧
      formatDefineSender (received body stack) = .known sender ∧
      ∃ parsed, (formatParse heap (received body stack) {}).1 =
        ⟨.known req, some parsed, false⟩ ∧ parsed.Agrees payload := by
  have hsome : ∀ p ∈ some payload, p.Fits := fun p hp => Option.some.inj hp ▸ hfits
  obtain ⟨body, hsent, hlen, htwo, hmem⟩ := formatCreate_sent h hsome buf
  obtain ⟨hsender, hparse⟩ := formatParse_create heap h hreq hfits hpid (hmem stack)
  exact ⟨body, hsent, by simp [hsent, hlen], formatIsMessageCorrect_sub_one hlen htwo, hsender,
    payload.received heap, hparse, hfits.received_agrees heap⟩

/-- A flooded packet with a message of two bytes. -/
def greeting : NodePacket :=
  ⟨1, 99, 2, 19, ⟨.known .delivery, 0, 1, 7, 2, Message.zero.memcpy [104, 105], 3⟩, 4⟩

theorem formatCreate_roundtrip_greeting :
    ∃ body, (createPacket .routeDirect .node greeting).sent (fun _ => 0) = 19 :: body ∧
      ((createPacket .routeDirect .node greeting).sent fun _ => 0).length = 19 ∧
      formatIsMessageCorrect body.length (19 - 1) = true ∧
      formatDefineSender (received body fun _ => 0) = .known .node ∧
      ∃ parsed, (formatParse .zero (received body fun _ => 0) {}).1 =
        ⟨.known .routeDirect, some parsed, false⟩ ∧ parsed.Agrees (.packet greeting) :=
  formatCreate_roundtrip
    (show formatCreate 0 .routeDirect (some (.packet greeting)) .node = _ from rfl) (by decide)
    (fun a ha => by cases ha; exact (by decide : 2 ≤ 150)) nofun (fun _ => 0)
    (fun _ => 0) .zero

end MeshNet
