import MeshNet.Node.Run
import MeshNet.Server.Listener

/-!
# The journey of a message

A message enters the mesh in the frame that the server writes to its origin, which compresses
it, and it goes on in the frames that nodes send while they handle one that carries it. Whatever
way it takes, and in whatever states the nodes are, the apps get what the cut-off stream decodes
to.
-/

namespace MeshNet
open Library

/-- The requests of a client that carry a message. -/
def Request.CarriesMessage (req : Request) : Prop :=
  req = .send ∨ req = .broadcast ∨ req = .unicast

/-- The frames in which the message `p` of a client travels after it was given the number
`id`. -/
inductive Underway (z : Zlib) (req : Request) (p : NodePacket) (id : UInt16) : List UInt8 → Prop
  | enter (env : ServerEnv) (s : Server) (hid : s.appMsgId = id) {fd : Int} {bytes : List UInt8}
      {ok : Bool} (hwrite : .write fd bytes ok ∈
        (s.handleClientRequest env ⟨.known req, some (.packet p), false⟩).2.trace.drop
          s.trace.length) : Underway z req p id bytes
  | forward {bytes : List UInt8} (h : Underway z req p id bytes) (addr : UInt8)
      (is : List (Env × List UInt8)) (env : Env) {port : UInt16} {bytes' : List UInt8} {ok : Bool}
      (hsend : .send port bytes' ok ∈
        newEvents z (run (nodeStep z) (.start addr) is) (env, bytes)) :
      Underway z req p id bytes'

/-- The forms that the message `orig` takes on the wire. -/
inductive OnWire (z : Zlib) (orig : AppPayload) : List UInt8 → Prop
  | server {req : Request} (hreq : req.CarriesMessage) {q : NodePacket}
      (hq : q.appPayload = orig) (buf : Nat → UInt8) :
      OnWire z orig ((createPacket req .server q).sent buf)
  | packet {req : Request} (hreq : req.layout = some .packet) {q : NodePacket}
      (hq : orig.Carries z q.appPayload) (buf : Nat → UInt8) :
      OnWire z orig ((createPacket req .node q).sent buf)
  | contest {req : Request} (hreq : req.layout = some .contest) {c : UnicastContest}
      (hc : orig.Carries z c.appPayload) (buf : Nat → UInt8) :
      OnWire z orig ((createContest req .node c).sent buf)
  | notify (notify : Notify) (buf : Nat → UInt8) :
      OnWire z orig ((createNotify .node notify).sent buf)

variable {z : Zlib} {req : Request} {p : NodePacket} {id : UInt16} {bytes : List UInt8}
  {orig a : AppPayload} {env : Env} {n : Node}

theorem Request.CarriesMessage.layout (h : req.CarriesMessage) : req.layout = some .packet := by
  obtain rfl | rfl | rfl := h <;> rfl

/-! ## Entering the mesh -/

theorem sendToNodes_trace (senv : ServerEnv) (addr : UInt8) (bytes : List UInt8)
    (tr : ServerTrace) (children : List Child) :
    ∃ es, (Server.sendToNodes senv addr bytes tr children).2 = tr ++ es ∧
      ∀ e ∈ es, ∃ fd ok, e = .write fd bytes ok := by
  induction children generalizing tr with
  | nil => exact ⟨[], (List.append_nil _).symm, by simp⟩
  | cons child rest ih =>
    rw [Server.sendToNodes]
    dsimp only
    split_ifs
    · exact ⟨_, rfl, fun e he => ⟨_, _, List.mem_singleton.mp he⟩⟩
    · obtain ⟨es, htrace, hes⟩ := ih (Server.ioWriteAll senv tr child.writeFd bytes).2
      refine ⟨_ :: es, htrace.trans (List.append_assoc ..), fun e he => ?_⟩
      obtain rfl | he := List.mem_cons.mp he
      · exact ⟨_, _, rfl⟩
      · exact hes e he
    · exact ih tr

theorem write_sendToNodes {senv : ServerEnv} {addr : UInt8} {tr : ServerTrace}
    {children : List Child} {fd : Int} {bytes' : List UInt8} {ok : Bool}
    (h : .write fd bytes' ok ∈ (Server.sendToNodes senv addr bytes tr children).2.drop tr.length) :
    bytes' = bytes := by
  obtain ⟨es, htrace, hes⟩ := sendToNodes_trace senv addr bytes tr children
  rw [htrace, List.drop_left] at h
  obtain ⟨fd', ok', heq⟩ := hes _ h
  exact (ServerEvent.write.inj heq).2.1

/-- What the server writes is the numbered message with its checksum. -/
theorem onWire_enter {senv : ServerEnv} {s : Server} (hreq : req.CarriesMessage) {fd : Int}
    {ok : Bool} (h : .write fd bytes ok ∈
      (s.handleClientRequest senv ⟨.known req, some (.packet p), false⟩).2.trace.drop
        s.trace.length) :
    OnWire z (Server.stamp s.appMsgId p).appPayload bytes := by
  obtain rfl | rfl | rfl := hreq
  · rw [write_sendToNodes h]
    exact .server (.inl rfl) (q := { Server.stamp s.appMsgId p with
      crc := packetCrc (Server.stamp s.appMsgId p) }) rfl _
  · rw [write_sendToNodes h]
    exact .server (.inr (.inl rfl)) rfl _
  · rw [write_sendToNodes h]
    exact .server (.inr (.inr rfl)) rfl _

theorem crc_stamp (hfits : p.appPayload.Fits) :
    (Server.stamp id p).appPayload.crc = appCrc (Server.stamp id p).appPayload := by
  have hnumbered : AppPayload.Fits { p.appPayload with id := id } := hfits
  have hstamped : (Server.stamp id p).appPayload.Fits := hfits
  exact hnumbered.appCrc.trans hstamped.appCrc.symm

/-! ## Going on -/

theorem AppPayload.Carries.received (h : orig.Carries z a) (heap : Message) :
    orig.Carries z (a.received heap) :=
  ⟨h.reqType, h.addrFrom, h.addrTo, h.id, h.crc, h.fits, (h.fits.text_received heap).trans h.text⟩

/-- The origin compresses what it has received of the message. -/
theorem carries_received (horig : orig.Fits) (hlen : orig.messageLen ≠ 0) (heap b : Message) :
    orig.Carries z (nodeAppSetupDelivery z b (orig.received heap)) := by
  have h : (orig.received heap).Carries z (nodeAppSetupDelivery z b (orig.received heap)) :=
    carries_setupDelivery hlen
  exact ⟨h.reqType, h.addrFrom, h.addrTo, h.id, h.crc, h.fits,
    (horig.text_received heap) ▸ h.text⟩

/-- A node that handles a form of the message emits only forms of the message, and gives its
apps what carries it. -/
theorem emits_onWire (env : Env) (n : Node) (horig : orig.Fits) (hlen : orig.messageLen ≠ 0)
    (h : OnWire z orig bytes) :
    ∃ a, orig.Carries z a ∧ Emits z env n.apps a n.link (nodeStep z n (env, bytes)).link := by
  cases h with
  | server hreq hq buf =>
    rw [nodeStep_packet hreq.layout (by rwa [hq])]
    refine ⟨_, carries_received horig hlen env.heap env.deflated,
      emits_nodeListenerHandle (fun payload hp b hb => ?_) ?_⟩
    · cases hp
      cases hb
      rw [carriedPayload, if_pos rfl, ← hq]
      rfl
    · rintro ⟨-, hreset⟩
      obtain rfl | rfl | rfl := hreq <;> cases hreset
  | packet hreq hq buf =>
    rw [nodeStep_packet hreq hq.fits]
    refine ⟨_, hq.received env.heap, emits_nodeListenerHandle (fun payload hp b hb => ?_) nofun⟩
    cases hp
    cases hb
    rfl
  | contest hreq hc buf =>
    rw [nodeStep_contest hreq hc.fits]
    refine ⟨_, hc.received env.heap, emits_nodeListenerHandle (fun payload hp b hb => ?_) nofun⟩
    cases hp
    cases hb
    rfl
  | notify notify buf =>
    have hstep : nodeStep z n (env, (createNotify .node notify).sent buf) = n := by
      simp only [nodeStep, nodeHandleRequest, receive_notify]
      rfl
    rw [hstep]
    exact ⟨_, carries_setupDelivery (b := env.deflated) hlen, .refl⟩

theorem satisfies_newEvents {apps : List App} {e : Event}
    (h : Emits z env apps a n.link (nodeStep z n (env, bytes)).link)
    (he : e ∈ newEvents z n (env, bytes)) :
    e.Satisfies (Outgoing env a) (Handed z env apps a) := by
  obtain ⟨es, htrace, hes⟩ := h.trace
  rw [newEvents, htrace, List.drop_left] at he
  exact hes e he

theorem onWire_underway (hreq : req.CarriesMessage) (hfits : p.appPayload.Fits)
    (hlen : p.appPayload.messageLen ≠ 0) (h : Underway z req p id bytes) :
    OnWire z (Server.stamp id p).appPayload bytes := by
  induction h with
  | enter env s hid hwrite =>
    rw [← hid]
    exact onWire_enter hreq hwrite
  | forward _ addr is env hsend ih =>
    obtain ⟨a, hcarries, hemits⟩ := emits_onWire env
      (run (nodeStep z) (.start addr) is) (show (Server.stamp id p).appPayload.Fits from hfits)
      hlen ih
    have hout : Outgoing env a _ _ := satisfies_newEvents hemits hsend
    cases hout with
    | notify notify => exact .notify notify _
    | packet _ hlayout hp => exact .packet hlayout (hp ▸ hcarries) _
    | contest _ hlayout hc => exact .contest hlayout (hc ▸ hcarries) _

/-! ## Arriving -/

/-- The payload is for an app that every node has, or for whoever gets it. -/
def AppPayload.Addressed (a : AppPayload) : Prop :=
  a.reqType = .known .delivery ∧ a.addrTo.toNat < appsCount ∨ a.reqType = .known .broadcast ∨
    a.reqType = .known .unicast

theorem any_nodeAppFillDefault {addr addrTo : UInt8} (h : addrTo.toNat < appsCount) :
    ((nodeAppFillDefault addr).any fun app => app.appAddr == addrTo) = true := by
  refine List.any_eq_true.mpr ⟨⟨addr, addrTo⟩, List.mem_map.mpr ⟨addrTo.toNat, ?_, ?_⟩, ?_⟩
  · exact List.mem_range.mpr h
  · simp
  · simp

/-- An app that is addressed opens the message. -/
theorem nodeAppHandleRequest_of_addressed {b : Message} {addr : UInt8} (h : a.Addressed) :
    nodeAppHandleRequest z b (nodeAppFillDefault addr) a = openMessage z b a := by
  obtain ⟨hreq, haddr⟩ | hreq | hreq := h
  · simp only [nodeAppHandleRequest, hreq, any_nodeAppFillDefault haddr, if_true]
  · simp only [nodeAppHandleRequest, hreq]
  · simp only [nodeAppHandleRequest, hreq]

theorem AppPayload.Carries.addressed (h : orig.Carries z a) (horig : orig.Addressed) :
    a.Addressed := by
  rw [AppPayload.Addressed, h.reqType, h.addrTo]
  exact horig

/-- Whatever an app is given while a frame of the message is handled carries the message. -/
theorem opened_of_underway (hreq : req.CarriesMessage) (hfits : p.appPayload.Fits)
    (hlen : p.appPayload.messageLen ≠ 0) (haddressed : p.appPayload.Addressed)
    (h : Underway z req p id bytes) {addr : UInt8} {is : List (Env × List UInt8)}
    {given left : AppPayload} {accepted : Bool}
    (happ : .app given accepted left ∈
      newEvents z (run (nodeStep z) (.start addr) is) (env, bytes)) :
    ∃ a, (Server.stamp id p).appPayload.Carries z a ∧
      (accepted, left) = openMessage z env.inflated a := by
  obtain ⟨a, hcarries, hemits⟩ := emits_onWire env
    (run (nodeStep z) (.start addr) is) (show (Server.stamp id p).appPayload.Fits from hfits) hlen
    (onWire_underway hreq hfits hlen h)
  obtain ⟨-, hhanded⟩ : Handed z env _ a given accepted left := satisfies_newEvents hemits happ
  have happs : (run (nodeStep z) (.start addr) is).apps = nodeAppFillDefault addr :=
    (run_sameHost addr is).2
  refine ⟨a, hcarries, hhanded.trans ?_⟩
  rw [happs, nodeAppHandleRequest_of_addressed (hcarries.addressed haddressed)]

/-- The app has accepted the very message that the client sent. -/
def Intact (p : NodePacket) (accepted : Bool) (left : AppPayload) : Prop :=
  accepted = true ∧ left.text = p.appPayload.text ∧ left.messageLen = p.appPayload.messageLen

theorem intact_iff_of_underway (hz : z.Lawful) (hreq : req.CarriesMessage)
    (hfits : p.appPayload.Fits) (hlen : p.appPayload.messageLen ≠ 0)
    (haddressed : p.appPayload.Addressed) (h : Underway z req p id bytes) {addr : UInt8}
    {is : List (Env × List UInt8)} {given left : AppPayload} {accepted : Bool}
    (happ : .app given accepted left ∈
      newEvents z (run (nodeStep z) (.start addr) is) (env, bytes)) :
    Intact p accepted left ↔ z.Survives p.appPayload.text := by
  obtain ⟨a, hcarries, hopened⟩ := opened_of_underway hreq hfits hlen haddressed h happ
  rw [Intact, show accepted = (openMessage z env.inflated a).1 from congrArg Prod.fst hopened,
    show left = (openMessage z env.inflated a).2 from congrArg Prod.snd hopened]
  have hstamped : (Server.stamp id p).appPayload.Fits := hfits
  have hiff := openMessage_iff (b := env.inflated) hz hstamped (crc_stamp hfits) hcarries
  exact hiff

/-- Whatever way a message took, an app that is given it gets the original exactly when what fits
of its stream still decodes to all of it, as a stream that fits as a whole does. -/
theorem intact_iff (hz : z.Lawful) (hreq : req.CarriesMessage)
    (hpos : 1 ≤ p.appPayload.messageLen.toNat)
    (hlt : p.appPayload.messageLen.toNat < appMessageLen) (haddressed : p.appPayload.Addressed)
    (h : Underway z req p id bytes) (addr : UInt8) (is : List (Env × List UInt8)) (env : Env)
    {given left : AppPayload} {accepted : Bool}
    (happ : .app given accepted left ∈
      newEvents z (run (nodeStep z) (.start addr) is) (env, bytes)) :
    (Intact p accepted left ↔ z.Survives p.appPayload.text) ∧
      ((z.deflate p.appPayload.text).length ≤ appMessageLen → Intact p accepted left) := by
  have hfits : p.appPayload.Fits := Nat.le_of_lt hlt
  have hlen : p.appPayload.messageLen ≠ 0 := by
    intro hzero
    rw [hzero] at hpos
    exact absurd hpos (by decide)
  have hiff := intact_iff_of_underway hz hreq hfits hlen haddressed h happ
  exact ⟨hiff, fun hstream => hiff.mpr
    (hz.survives (hfits.length_text ▸ hfits) hstream)⟩

/-! ## Messages that zlib can only store -/

/-- The bytes of growing value from 107 on. -/
def growing (k : Nat) : List UInt8 := (List.range k).map fun i => UInt8.ofNat (107 + i)

/-- A message that node 5 is to send itself. -/
def storedMessage (k : Nat) : NodePacket :=
  ⟨5, 5, 0, 0, ⟨.known .delivery, 0, 0, 0, UInt8.ofNat k, Message.zero.memcpy (growing k), 0⟩, 0⟩

/-- A server that knows the process of node 5. -/
def serverOfFive : Server := { Server.start [] with children := [⟨1, 7, 5, 1005⟩] }

/-- The frame in which the server passes a message on to node 5. -/
def storedFrame (k : Nat) : List UInt8 :=
  let q := Server.stamp 0 (storedMessage k)
  (createPacket .send .server { q with crc := packetCrc q }).sent fun _ => 0

theorem underway_storedFrame (k : Nat) : Underway z .send (storedMessage k) 0 (storedFrame k) := by
  have hwrite : .write 7 (storedFrame k) true ∈ (serverOfFive.handleClientRequest .quiet
      ⟨.known .send, some (.packet (storedMessage k)), false⟩).2.trace.drop 0 :=
    List.mem_cons_self
  exact .enter .quiet serverOfFive rfl hwrite

variable {k : Nat}

theorem messageLen_storedMessage (hk : k < appMessageLen) :
    (storedMessage k).appPayload.messageLen.toNat = k := by
  simp only [storedMessage, UInt8.toNat_ofNat', appMessageLen] at *
  omega

theorem fits_storedMessage (hk : k < appMessageLen) : (storedMessage k).appPayload.Fits := by
  rw [AppPayload.Fits, messageLen_storedMessage hk]
  exact Nat.le_of_lt hk

theorem text_storedMessage (hk : k < appMessageLen) :
    (storedMessage k).appPayload.text = growing k := by
  have hlen : (growing k).length = k := by simp [growing]
  have htake : (Message.zero.memcpy (growing k)).bytes.take (growing k).length = growing k :=
    Message.zero.take_memcpy (by omega)
  rw [AppPayload.text, messageLen_storedMessage hk, ← htake, hlen]
  rfl

/-- Node 5 gives the message to its app. -/
theorem app_storedFrame (hk : k < appMessageLen) :
    ∃ given accepted left, .app given accepted left ∈
      newEvents z (run (nodeStep z) (.start 5) []) (.zeroed .ideal, storedFrame k) := by
  have hfits : (Server.stamp 0 (storedMessage k)).renewed.appPayload.Fits := fits_storedMessage hk
  have hvalid : isValidCrc ((Server.stamp 0 (storedMessage k)).renewed.received .zero) = true := by
    rw [isValidCrc, hfits.packetCrc_received]
    exact isValidCrc_renewed (p := Server.stamp 0 (storedMessage k)) hfits
  have hframe : storedFrame k = (createPacket .send .server
      (Server.stamp 0 (storedMessage k)).renewed).sent fun _ => 0 := rfl
  have hto : ((Server.stamp 0 (storedMessage k)).renewed.received .zero).receiverAddr = 5 := rfl
  generalize (Server.stamp 0 (storedMessage k)).renewed = q at *
  have hstep : (nodeStep z (.start 5) (.zeroed .ideal, storedFrame k)).link =
      (handToAppAndNotify z (.zeroed .ideal) (.start 5) Link.initial
        (nodeAppSetupDelivery z .zero (q.received .zero).appPayload)).2.2 := by
    rw [hframe, nodeStep_packet rfl hfits]
    exact handleServerSend_of_receiver .send hvalid hto
  generalize nodeAppSetupDelivery z .zero (q.received .zero).appPayload = a at hstep
  obtain ⟨left, htrace⟩ := trace_handToAppAndNotify z (.zeroed .ideal) (.start 5)
    Link.initial a
  refine ⟨a, (handToAppAndNotify z (.zeroed .ideal) (.start 5) Link.initial a).1, left, ?_⟩
  rw [newEvents, run_nil, hstep, htrace]
  exact List.mem_cons_self

theorem intact_iff_stored : ∃ accepted left, Intact (storedMessage 139) accepted left := by
  obtain ⟨given, accepted, left, happ⟩ := app_storedFrame (z := .stored) (k := 139) (by decide)
  exact ⟨accepted, left, (intact_iff Zlib.stored_lawful (.inl rfl)
    (by rw [messageLen_storedMessage (by decide)]; decide)
    (by rw [messageLen_storedMessage (by decide)]; decide) (.inl ⟨rfl, by decide⟩)
    (underway_storedFrame 139) 5 [] (.zeroed .ideal) happ).2
    (by rw [text_storedMessage (by decide)]; decide +kernel)⟩

/-- The stream of a text of 149 bytes that are all different is cut off in the text. -/
theorem not_survives_stored : ¬ Zlib.stored.Survives (growing 149) := by
  unfold Zlib.Survives
  decide +kernel

/-- Of a message of 149 bytes that zlib can only store, the last six are lost. -/
theorem intact_cut_off :
    ¬ ∀ (z : Zlib) (req : Request) (p : NodePacket) (id : UInt16) (bytes : List UInt8)
      (addr : UInt8) (is : List (Env × List UInt8)) (env : Env) (given left : AppPayload)
      (accepted : Bool), z.Lawful → req.CarriesMessage → 1 ≤ p.appPayload.messageLen.toNat →
        p.appPayload.messageLen.toNat < appMessageLen → p.appPayload.Addressed →
        Underway z req p id bytes →
        .app given accepted left ∈ newEvents z (run (nodeStep z) (.start addr) is) (env, bytes) →
          Intact p accepted left := by
  intro hclaim
  have hk : 149 < appMessageLen := by decide
  have hlen := messageLen_storedMessage hk
  have haddressed : (storedMessage 149).appPayload.Addressed := .inl ⟨rfl, by decide⟩
  obtain ⟨given, accepted, left, happ⟩ := app_storedFrame (z := .stored) hk
  have hintact := hclaim .stored .send (storedMessage 149) 0 (storedFrame 149) 5 []
    (.zeroed .ideal) given left accepted Zlib.stored_lawful (.inl rfl) (by omega) (by omega)
    haddressed (underway_storedFrame 149) happ
  have hsurvives := (intact_iff_of_underway Zlib.stored_lawful (.inl rfl)
    (fits_storedMessage hk) (by decide) haddressed (underway_storedFrame 149) happ).mp hintact
  rw [text_storedMessage hk] at hsurvives
  exact not_survives_stored hsurvives

end MeshNet
