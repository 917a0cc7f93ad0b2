import MeshNet.Format.Bounds
import MeshNet.Format.Receive

/-!
# Writing back what was read

A frame that the parser reads in bounds is made of what it has read: `formatCreate` gives the
bytes of its layout back, whoever sent them. So two frames that are received alike differ at most
behind their layout.
-/

namespace MeshNet
open Library Reader

variable {mem : Nat → UInt8} {heap : Message} {stack : Nat → UInt8} {n : Nat} {bs : List UInt8}

/-! ## One writer for each layout -/

/-- The message of a payload as it lies in memory behind the position `p`. -/
theorem formatAppParseMessage_eq {p : Nat} (w : Walk) (hw : w.pos = p) :
    (formatAppParseMessage heap mem w).1 =
      ⟨.ofByte (mem p), mem (p + 1), mem (p + 2), word16 (mem (p + 3)) (mem (p + 4)), mem (p + 5),
        heap.memcpy ((List.range (mem (p + 5)).toNat).map fun i => mem (p + 6 + i)),
        word16 (mem (p + 6 + (mem (p + 5)).toNat)) (mem (p + 7 + (mem (p + 5)).toNat))⟩ := by
  subst hw
  have hmsg := readMessage_holds heap (n := mem (w.pos + 5)) (by simp)
    (holds_map_range mem (w.pos + 6) (mem (w.pos + 5)).toNat)
  have hnext : w.pos + 7 + (mem (w.pos + 5)).toNat =
      w.pos + (6 + ((mem (w.pos + 5)).toNat + 1)) := by omega
  simp [formatAppParseMessage, word, Nat.add_assoc, hmsg, hnext]

theorem holds_formatAppParseMessage {p : Nat} (w : Walk) (hw : w.pos = p)
    (hfits : (mem (p + 5)).toNat ≤ appMessageLen) :
    Holds mem p (formatAppCreateMessage (formatAppParseMessage heap mem w).1) := by
  rw [formatAppParseMessage_eq w hw, formatAppCreateMessage_eq]
  have hshort : ((List.range (mem (p + 5)).toNat).map fun i => mem (p + 6 + i)).length ≤
      appMessageLen := by simpa using hfits
  have htext := heap.take_memcpy hshort
  rw [List.length_map, List.length_range] at htext
  simp only [AppPayload.header, AppPayload.text, htext, bytes16_word16, Packed.toByte_ofByte]
  have hmsg := holds_map_range mem (p + 6) (mem (p + 5)).toNat
  have hnext : p + 7 + (mem (p + 5)).toNat = p + (6 + ((mem (p + 5)).toNat + 1)) := by omega
  simpa [Nat.add_assoc, hnext] using hmsg

theorem holds_parseRoutePayload (heap : Message) (w : Walk)
    (hfits : (mem 11).toNat ≤ appMessageLen) :
    (parseRoutePayload heap mem w).1.appPayload.messageLen = mem 11 ∧
      Holds mem 2 ((parseRoutePayload heap mem w).1.header ++
        (formatAppCreateMessage (parseRoutePayload heap mem w).1.appPayload ++
          bytes16 (parseRoutePayload heap mem w).1.crc)) := by
  let w' : Walk := ⟨6, w.reads ++ [2] ++ [3] ++ [4] ++ [5], w.stores⟩
  let a := (formatAppParseMessage heap mem w').1
  have hlen : a.messageLen = mem 11 := formatAppParseMessage_messageLen w'
  have ha : a.Fits := by
    rw [AppPayload.Fits, hlen]
    exact hfits
  have hheld : Holds mem 6 (formatAppCreateMessage a) := holds_formatAppParseMessage w' rfl hfits
  have hp : (parseRoutePayload heap mem w).1 =
      ⟨mem 2, mem 3, mem 4, (mem 5).toInt8, a,
        word16 (mem (6 + (formatAppMessageLen a).toNat))
          (mem (6 + (formatAppMessageLen a).toNat + 1))⟩ := by
    simp [parseRoutePayload, skipBase, word, a, w']
  rw [hp]
  refine ⟨hlen, ?_⟩
  simp [NodePacket.header, hheld, ha.length_createMessage, ha.formatAppMessageLen, Nat.add_assoc]

theorem holds_parseUnicastContestPayload (heap : Message) (w : Walk)
    (hfits : (mem 9).toNat ≤ appMessageLen) :
    (parseUnicastContestPayload heap mem w).1.appPayload.messageLen = mem 9 ∧
      Holds mem 2 ([(parseUnicastContestPayload heap mem w).1.req.toByte,
          (parseUnicastContestPayload heap mem w).1.nodeAddr] ++
        formatAppCreateMessage (parseUnicastContestPayload heap mem w).1.appPayload) := by
  let w' : Walk := ⟨4, w.reads ++ [2] ++ [3], w.stores⟩
  have hlen : (formatAppParseMessage heap mem w').1.messageLen = mem 9 :=
    formatAppParseMessage_messageLen w'
  have hheld : Holds mem 4 (formatAppCreateMessage (formatAppParseMessage heap mem w').1) :=
    holds_formatAppParseMessage w' rfl hfits
  have hc : (parseUnicastContestPayload heap mem w).1 =
      ⟨.ofByte (mem 2), mem 3, (formatAppParseMessage heap mem w').1⟩ := by
    simp [parseUnicastContestPayload, skipBase, w']
  rw [hc]
  refine ⟨hlen, ?_⟩
  simp [hheld]

theorem holds_parseNodeUpdatePayload (w : Walk) :
    Holds mem 2 (bytes16 (parseNodeUpdatePayload mem w).1.port ++
      [(parseNodeUpdatePayload mem w).1.addr] ++
        bytes32 (parseNodeUpdatePayload mem w).1.pid.toUInt32) := by
  simp [parseNodeUpdatePayload, skipBase, word, dword]

theorem holds_parseNotifyPayload (w : Walk) :
    Holds mem 2 ([(parseNotifyPayload mem w).1.type.toByte] ++
      bytes16 (parseNotifyPayload mem w).1.appMsgId) := by
  simp [parseNotifyPayload, skipBase, word]

/-! ## The whole format -/

theorem formatParse_req (heap : Message) :
    (formatParse heap mem {}).1.req = .ofByte (mem 0) := by
  simp only [formatParse, bind_apply, map_apply, byte_apply]
  cases (Packed.ofByte (mem 0) : Packed Request) with
  | other code outside => rfl
  | known req => cases req <;> rfl

/-- Only requests with a layout are read with a payload. -/
theorem exists_layout {req : Request} {payload : Payload} {died : Bool}
    (h : (formatParse heap mem {}).1 = ⟨.known req, some payload, died⟩) :
    mem 0 = Enumeration.code req ∧ ∃ l, req.layout = some l := by
  have hreq : (Packed.ofByte (mem 0) : Packed Request) = .known req := by
    rw [← formatParse_req heap, h]
  refine ⟨?_, Option.ne_none_iff_exists'.mp fun hnone => ?_⟩
  · rw [← Packed.toByte_ofByte (ε := Request) (mem 0), hreq]
    rfl
  · cases req <;> simp [formatParse, hreq] at h <;> cases hnone

variable {getpid : Int32} {sender : RequestSender} {req : Request} {payload : Payload} {f : Frame}
  {died : Bool} {msgLen : UInt8}

/-- What is read in bounds is written back to where it was read. -/
theorem holds_formatCreate (hparse : (formatParse heap mem {}).1 = ⟨.known req, some payload, died⟩)
    (hsender : mem 1 = Enumeration.code sender) (hsized : WellSized mem n)
    (hpid : ∀ u, payload = .update u → u.pid = getpid) :
    payload.Fits ∧ ∃ f, formatCreate getpid req (some payload) sender = some f ∧
      Holds mem 0 f.bytes.tail ∧ f.bytes.tail.length ≤ n := by
  obtain ⟨hreq, l, hl⟩ := exists_layout hparse
  have hknown : (Packed.ofByte (mem 0) : Packed Request) = .known req := by
    rw [hreq]
    exact Packed.ofByte_toByte (.known req)
  have hheld : ∀ {body : List UInt8}, Holds mem 2 body →
      Holds mem 0 (Enumeration.code req :: Enumeration.code sender :: body) :=
    fun hbody => holds_cons.mpr ⟨hreq, holds_cons.mpr ⟨hsender, hbody⟩⟩
  have hnone : ∀ {q : Payload}, q.appPayload? = none → q.Fits := by
    intro q hq a ha
    rw [hq] at ha
    cases ha
  rw [formatParse_layout heap hreq l hl] at hparse
  simp only [WellSized, hknown, hl] at hsized
  cases l with
  | addr =>
    obtain rfl : Payload.addr (mem 2) = payload := by simpa using congrArg Parsed.payload hparse
    refine ⟨hnone rfl, createAddr req sender (some (mem 2)), ?_, hheld (by simp), hsized⟩
    cases req <;> cases hl <;> rfl
  | update =>
    obtain rfl : Payload.update _ = payload := by simpa using congrArg Parsed.payload hparse
    obtain rfl : req = .update := by cases req <;> first | rfl | cases hl
    refine ⟨hnone rfl, createUpdate getpid sender _, rfl, ?_, hsized⟩
    rw [← hpid _ rfl]
    exact hheld (holds_parseNodeUpdatePayload { pos := 1, reads := [0] })
  | notify =>
    obtain rfl : Payload.notify _ = payload := by simpa using congrArg Parsed.payload hparse
    obtain rfl : req = .notify := by cases req <;> first | rfl | cases hl
    exact ⟨hnone rfl, createNotify sender _, rfl,
      hheld (holds_parseNotifyPayload { pos := 1, reads := [0] }), hsized⟩
  | packet =>
    obtain rfl : Payload.packet _ = payload := by simpa using congrArg Parsed.payload hparse
    obtain ⟨hlen, hbody⟩ :=
      holds_parseRoutePayload heap { pos := 1, reads := [0] } hsized.2
    have hfits : (parseRoutePayload heap mem { pos := 1, reads := [0] }).1.appPayload.Fits := by
      rw [AppPayload.Fits, hlen]
      exact hsized.2
    refine ⟨fun a ha => Option.some.inj ha ▸ hfits, _, formatCreate_packet sender _ hl,
      hheld hbody, ?_⟩
    rw [List.length_tail, length_createPacket _ _ hfits, hlen]
    omega
  | contest =>
    obtain rfl : Payload.contest _ = payload := by simpa using congrArg Parsed.payload hparse
    obtain ⟨hlen, hbody⟩ :=
      holds_parseUnicastContestPayload heap { pos := 1, reads := [0] } hsized.2
    have hfits :
        (parseUnicastContestPayload heap mem { pos := 1, reads := [0] }).1.appPayload.Fits := by
      rw [AppPayload.Fits, hlen]
      exact hsized.2
    refine ⟨fun a ha => Option.some.inj ha ▸ hfits, createContest req sender _, ?_,
      hheld hbody, ?_⟩
    · cases req <;> cases hl <;> rfl
    · rw [List.length_tail, length_createContest hfits, hlen]
      omega

/-- A frame that is written to a buffer that holds its continuation continues so. -/
theorem Frame.sent_of_isPrefix {bytes : List UInt8} (h : f.bytes <+: bytes)
    (hlen : bytes.length = f.len.toNat) : f.sent (fun i => bytes.getD i 0) = bytes := by
  obtain ⟨rest, rfl⟩ := h
  have hrest : (List.range (f.len.toNat - f.bytes.length)).map
      (fun i => (f.bytes ++ rest).getD (f.bytes.length + i) 0) = rest := by
    rw [List.length_append] at hlen
    refine List.ext_getElem (by simp; omega) fun i hi hi' => ?_
    simp [List.getD_eq_getElem?_getD, hi']
  rw [Frame.sent, hrest, ← hlen, List.take_length]

/-- What was received of a frame that is read in bounds is written back as its first bytes, and as
all of them where the frame declares the length of its layout and the buffer holds what lies behind
its message. -/
theorem formatCreate_receive (hlen : bs.length + 1 = msgLen.toNat)
    (hreceive : receive heap stack (msgLen :: bs) =
      some ⟨.known sender, ⟨.known req, some payload, died⟩⟩)
    (hbounds : InBounds (formatParse heap (received bs stack) {}).2 bs.length)
    (hpid : ∀ u, payload = .update u → u.pid = getpid) :
    payload.Fits ∧ ∃ f, formatCreate getpid req (some payload) sender = some f ∧
      f.bytes.tail <+: bs ∧
        (f.len = msgLen → f.sent (fun i => (msgLen :: bs).getD i 0) = msgLen :: bs) := by
  have hle : (1 : UInt8) ≤ msgLen := UInt8.le_iff_toNat_le.mpr (by simp; omega)
  have htake : bs.take (msgLen - 1).toNat = bs := by
    apply List.take_of_length_le
    rw [UInt8.toNat_sub_of_le _ _ hle, UInt8.toNat_one]
    omega
  simp only [receive, htake, parseBody] at hreceive
  split at hreceive
  · rename_i hcorrect
    have hone : 1 ≤ bs.length := by
      unfold formatIsMessageCorrect at hcorrect
      split at hcorrect
      · omega
      · cases hcorrect
    have hdefine : formatDefineSender (received bs stack) = .known sender :=
      congrArg Incoming.sender (Option.some.inj hreceive)
    have hsender : received bs stack 1 = Enumeration.code sender := by
      rw [← Packed.toByte_ofByte (ε := RequestSender) (received bs stack 1)]
      exact congrArg Packed.toByte hdefine
    obtain ⟨hfits, f, hcreate, hheld, hshort⟩ :=
      holds_formatCreate (congrArg Incoming.parsed (Option.some.inj hreceive)) hsender
        ((inBounds_formatParse hone).mp hbounds) hpid
    have hprefix := hheld.isPrefix hshort
    refine ⟨hfits, f, hcreate, hprefix, fun hdeclared => f.sent_of_isPrefix ?_ ?_⟩
    · obtain ⟨body, hbytes⟩ := formatCreate_head hcreate
      rw [hbytes, List.tail_cons] at hprefix
      rw [hbytes, hdeclared]
      exact List.cons_prefix_cons.mpr ⟨rfl, hprefix⟩
    · rw [hdeclared, ← hlen, List.length_cons]
  · cases hreceive

/-- What lies behind the length byte in a frame of the flooded packet. -/
def greetingBody : List UInt8 := [4, 1, 1, 99, 2, 19, 0, 0, 1, 7, 0, 2, 104, 105, 3, 0, 4, 0]

theorem formatCreate_receive_greeting :
    (Payload.packet greeting).Fits ∧
      ∃ f, formatCreate 0 .routeDirect (some (.packet greeting)) .node = some f ∧
        f.bytes.tail <+: greetingBody ∧
          (f.len = 19 → f.sent (fun i => (19 :: greetingBody).getD i 0) = 19 :: greetingBody) :=
  have hreceive : receive .zero (fun _ => 0) (19 :: greetingBody) =
      some ⟨.known .node, ⟨.known .routeDirect, some (.packet greeting), false⟩⟩ := by
    decide +kernel
  formatCreate_receive (by decide) hreceive (by decide +kernel) (by simp)

end MeshNet
