import MeshNet.Format.RoundTrip

/-!
# What memory a frame takes along

A frame is to be made of the fields of its header and of its payload alone: neither what the
buffer held before nor what the message array holds behind the message is to be sent. The frames
of a contest declare the length of the whole structure, and where the message does not fill its
array the bytes that are missing are those that the buffer happened to hold.
-/

namespace MeshNet

/-- What is sent is the same for all contents of the buffer and of the array behind the message,
and each of its bytes was written. -/
def NoLeftover (getpid : Int32) (req : Request) (sender : RequestSender)
    (payload : Option Payload) : Prop :=
  ∀ payload', Option.Rel Payload.Agrees payload payload' →
    (formatCreate getpid req payload sender).map Frame.len =
        (formatCreate getpid req payload' sender).map Frame.len ∧
      (∀ buf buf' : Nat → UInt8, (formatCreate getpid req payload sender).map (·.sent buf) =
        (formatCreate getpid req payload' sender).map (·.sent buf')) ∧
      ∀ f ∈ formatCreate getpid req payload' sender, f.len.toNat ≤ f.bytes.length

variable {getpid : Int32} {req : Request} {sender : RequestSender}
  {payload payload' : Option Payload} {f : Frame}

/-! ## Frames of payloads that agree -/

theorem Payload.agrees_refl (p : Payload) : p.Agrees p := by
  cases p <;> simp [Agrees, AppPayload.Agrees]

theorem AppPayload.Agrees.formatAppCreateMessage {a b : AppPayload} (h : a.Agrees b) :
    formatAppCreateMessage a = MeshNet.formatAppCreateMessage b := by
  obtain ⟨htype, hfrom, hto, hid, hlen, htext, hcrc⟩ := h
  rw [formatAppCreateMessage_eq, formatAppCreateMessage_eq, htext, hcrc, header, header, htype,
    hfrom, hto, hid, hlen]

theorem createPacket_congr (req : Request) (sender : RequestSender) {p q : NodePacket}
    (h : (Payload.packet p).Agrees (.packet q)) :
    createPacket req sender p = createPacket req sender q := by
  obtain ⟨hsender, hreceiver, hlocal, httl, happ, hcrc⟩ := h
  have hlen : p.appPayload.messageLen = q.appPayload.messageLen := happ.2.2.2.2.1
  simp only [createPacket, sizeofPacket, formatAppMessageLen, NodePacket.header, hlen,
    happ.formatAppCreateMessage, hsender, hreceiver, hlocal, httl, hcrc]

theorem createContest_congr (req : Request) (sender : RequestSender) {c d : UnicastContest}
    (h : (Payload.contest c).Agrees (.contest d)) :
    createContest req sender c = createContest req sender d := by
  obtain ⟨hreq, haddr, happ⟩ := h
  simp only [createContest, happ.formatAppCreateMessage, hreq, haddr]

/-- What the array holds behind the message makes no difference to the walk. -/
theorem formatCreate_congr {p q : Payload} (h : p.Agrees q) :
    formatCreate getpid req (some p) sender = formatCreate getpid req (some q) sender := by
  cases p <;> cases q <;> simp only [Payload.Agrees, reduceCtorEq] at h
  case packet.packet p q =>
    have heq := fun req => createPacket_congr req sender h
    cases req <;> simp [formatCreate, heq]
  case contest.contest c d =>
    have heq := fun req => createContest_congr req sender h
    cases req <;> simp [formatCreate, heq]
  all_goals rw [h]

theorem formatCreate_rel (getpid : Int32) (req : Request) (sender : RequestSender)
    (h : Option.Rel Payload.Agrees payload payload') :
    formatCreate getpid req payload sender = formatCreate getpid req payload' sender := by
  cases h with
  | some h => exact formatCreate_congr h
  | none => rfl

/-! ## Frames that are written in full -/

theorem Frame.sent_of_length (h : f.bytes.length = f.len.toNat) (buf : Nat → UInt8) :
    f.sent buf = f.bytes := by
  simp [Frame.sent, h, List.take_of_length_le]

/-- The message of a contest fills its array. -/
def FillsArray (req : Request) (payload : Option Payload) : Prop :=
  req.layout = some .contest →
    ∀ c, payload = some (.contest c) → c.appPayload.messageLen.toNat = appMessageLen

theorem length_eq_iff (h : formatCreate getpid req payload sender = some f)
    (hfits : ∀ p ∈ payload, p.Fits) :
    f.bytes.length = f.len.toNat ↔ FillsArray req payload := by
  unfold FillsArray
  rcases formatCreate_cases h with ⟨rfl, rfl⟩ | ⟨a, rfl, -, rfl⟩ | ⟨u, rfl, -, rfl⟩ |
    ⟨n, rfl, -, rfl⟩ | ⟨p, rfl, -, rfl⟩ | ⟨c, rfl, hlayout, rfl⟩
  · exact iff_of_true rfl (fun _ c hc => by cases hc)
  · exact iff_of_true rfl (fun _ c hc => by cases hc)
  · exact iff_of_true rfl (fun _ c hc => by cases hc)
  · exact iff_of_true rfl (fun _ c hc => by cases hc)
  · have hp : p.appPayload.Fits := hfits _ rfl _ rfl
    exact iff_of_true ((length_createPacket _ _ hp).trans (len_createPacket _ _ hp).symm)
      (fun _ c hc => by cases hc)
  · have hc : c.appPayload.Fits := hfits _ rfl _ rfl
    rw [length_createContest hc, len_createContest]
    constructor
    · intro hlen _ d hd
      cases hd
      change _ = 150
      omega
    · intro hfills
      have hlen : c.appPayload.messageLen.toNat = 150 := hfills hlayout c rfl
      omega

/-- The frames take no memory along but for those of contests whose message leaves room in its
array. -/
theorem noLeftover_iff (getpid : Int32) (req : Request) (sender : RequestSender)
    (payload : Option Payload) (hfits : ∀ p ∈ payload, p.Fits) :
    NoLeftover getpid req sender payload ↔ FillsArray req payload := by
  have hrel : Option.Rel Payload.Agrees payload payload := by
    rcases payload with _ | p
    · exact .none
    · exact .some (Payload.agrees_refl p)
  constructor
  · intro h hlayout c hc
    subst hc
    have hf : formatCreate getpid req (some (.contest c)) sender = _ :=
      formatCreate_contest sender c hlayout
    have hwritten := (h _ hrel).2.2 _ hf
    have hlen := Nat.le_antisymm (formatCreate_length_le hf hfits) hwritten
    exact (length_eq_iff hf hfits).mp hlen hlayout c rfl
  · intro hfills payload' hagree
    rw [← formatCreate_rel getpid req sender hagree]
    cases hf : formatCreate getpid req payload sender with
    | none => simp
    | some f =>
      have hlen := (length_eq_iff hf hfits).mpr hfills
      refine ⟨rfl, ?_, ?_⟩
      · intro buf buf'
        simp [f.sent_of_length hlen]
      · rintro g ⟨⟩
        exact Nat.le_of_eq hlen.symm

theorem noLeftover_greeting :
    NoLeftover 0 .routeDirect .node (some (.packet greeting)) := by
  apply (noLeftover_iff 0 .routeDirect .node _ _).mpr
  · exact nofun
  · rintro p ⟨⟩ a ⟨⟩
    exact (by decide : 2 ≤ 150)

/-- A contest about a packet without a message. -/
def mute : UnicastContest :=
  ⟨.known .unicastContest, 7, ⟨.known .unicast, 0, 0, 1, 0, Message.zero, 0⟩⟩

/-- Its frame ends in 150 bytes of the buffer. -/
theorem noLeftover_mute :
    ¬ ∀ (getpid : Int32) (req : Request) (sender : RequestSender) (payload : Option Payload),
      (∀ p ∈ payload, p.Fits) → NoLeftover getpid req sender payload := by
  intro hclaim
  have hfits : ∀ p ∈ some (Payload.contest mute), p.Fits := by
    rintro p ⟨⟩ a ⟨⟩
    exact (by decide : 0 ≤ 150)
  have hmute := hclaim 0 .unicastContest .node (some (.contest mute)) hfits
  have hsent := (hmute _ (.some (Payload.agrees_refl (.contest mute)))).2.1 (fun _ => 0) fun _ => 1
  have hbyte := congrArg (fun bytes => (bytes.getD []).getD 13 0) hsent
  revert hbyte
  decide +kernel

end MeshNet
