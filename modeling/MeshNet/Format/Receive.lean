import MeshNet.Format.RoundTrip

/-!
# Receiving frames

The server and the nodes have each their own `handle_request`, which read a frame the same way:
the length byte first and then as many bytes as it announces. The body is passed on when all of
it has come.
-/

namespace MeshNet
open Library

/-- The parts of a received body that the listener works with. -/
structure Incoming where
  sender : Packed RequestSender
  parsed : Parsed
  deriving DecidableEq

def parseBody (heap : Message) (stack : Nat → UInt8) (body : List UInt8) : Incoming :=
  let buf := received body stack
  ⟨formatDefineSender buf, (formatParse heap buf {}).1⟩

/-- What came over one connection: the length byte, and as much of a body as it announces. -/
def receive (heap : Message) (stack : Nat → UInt8) (bytes : List UInt8) : Option Incoming :=
  match bytes with
  | [] => none
  | msgLen :: rest =>
    let body := rest.take (msgLen - 1).toNat
    if formatIsMessageCorrect body.length (msgLen - 1) then some (parseBody heap stack body)
    else none

variable {heap : Message} {stack : Nat → UInt8}

/-- A frame that `formatCreate` has made is received with its payload as its reader has it. -/
theorem receive_sent {getpid : Int32} {req : Request} {payload : Payload}
    {sender : RequestSender} {f : Frame}
    (h : formatCreate getpid req (some payload) sender = some f) (hreq : req ≠ .reset)
    (hfits : payload.Fits) (hpid : ∀ u, payload = .update u → u.pid = getpid)
    (buf : Nat → UInt8) :
    receive heap stack (f.sent buf) =
      some ⟨.known sender, ⟨.known req, some (payload.received heap), false⟩⟩ := by
  have hsome : ∀ p ∈ some payload, p.Fits := fun p hp => Option.some.inj hp ▸ hfits
  obtain ⟨body, hsent, hlen, htwo, hmem⟩ := formatCreate_sent h hsome buf
  obtain ⟨hsender, hparse⟩ := formatParse_create heap h hreq hfits hpid (hmem stack)
  have hcorrect := formatIsMessageCorrect_sub_one hlen htwo
  have hle : (1 : UInt8) ≤ f.len := UInt8.le_iff_toNat_le.mpr (by simp; omega)
  have htake : body.take (f.len - 1).toNat = body := by
    apply List.take_of_length_le
    rw [UInt8.toNat_sub_of_le _ _ hle]
    simp
    omega
  simp only [hsent, receive, htake, hcorrect, if_true, parseBody, hsender, hparse]

theorem receive_packet {req : Request} {sender : RequestSender} {p : NodePacket}
    (hreq : req.layout = some .packet) (hfits : p.appPayload.Fits) (buf : Nat → UInt8) :
    receive heap stack ((createPacket req sender p).sent buf) =
      some ⟨.known sender, ⟨.known req, some (.packet (p.received heap)), false⟩⟩ :=
  receive_sent
    (show formatCreate 0 req (some (.packet p)) sender = _ from formatCreate_packet sender p hreq)
    (by rintro rfl; cases hreq) (fun a ha => by cases ha; exact hfits) nofun buf

theorem receive_contest {req : Request} {sender : RequestSender} {c : UnicastContest}
    (hreq : req.layout = some .contest) (hfits : c.appPayload.Fits) (buf : Nat → UInt8) :
    receive heap stack ((createContest req sender c).sent buf) =
      some ⟨.known sender, ⟨.known req, some (.contest (c.received heap)), false⟩⟩ :=
  receive_sent
    (show formatCreate 0 req (some (.contest c)) sender = _ from formatCreate_contest sender c hreq)
    (by rintro rfl; cases hreq) (fun a ha => by cases ha; exact hfits) nofun buf

theorem receive_notify {notify : Notify} (buf : Nat → UInt8) :
    receive heap stack ((createNotify .node notify).sent buf) =
      some ⟨.known .node, ⟨.known .notify, some (.notify notify), false⟩⟩ :=
  receive_sent (show formatCreate 0 .notify (some (.notify notify)) .node = _ from rfl)
    (by decide) (fun a ha => by cases ha) nofun buf

end MeshNet
