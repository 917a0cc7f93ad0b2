import MeshNet.Mesh.Journey
import MeshNet.Mesh.Settled
import MeshNet.Node.Notices

/-!
# Which successes clients are told of

A client is told of a success when the first notification about its message says so. The message
was taken by an app if no unicast message is announced that its app does not take, and if the
notification is about the message of the client that is looked up.
-/

namespace MeshNet
open Library Network

/-- A message of the client at `fd`: it has the number `id` since the reset number `era`. -/
structure Asked where
  fd : Int
  era : Nat
  id : UInt16
  deriving DecidableEq

/-- The mesh, the messages that clients have asked for, those of them that an app has taken, and
those that a client was told to have succeeded. -/
structure Ledger where
  network : Network
  asked : List Asked
  taken : List (Nat × UInt16)
  confirmed : List Asked

namespace Ledger

def start (pids : List Int32) : Ledger := ⟨.start pids, [], [], []⟩

def asks (w : Network) (h : Happening) : List Asked :=
  match w.served? h with
  | some (x, _) =>
    if x.tableEvent = .registers then [⟨x.fd, w.era, w.server.appMsgId⟩] else []
  | none => []

def takes (z : Zlib) (w : Network) (h : Happening) : List (Nat × UInt16) :=
  match w.handled? h with
  | some (addr, env, f) =>
    (newNotices z (w.node addr) (env, f.bytes)).filterMap fun
      | .handed id true => some (f.era, id)
      | _ => none
  | none => []

/-- The results that `handle_notify` writes and that tell of a success. -/
def confirms (w : Network) (h : Happening) : List Asked :=
  match w.served? h with
  | some (x, era) =>
    match x.tableEvent with
    | .notifies notify =>
      ((w.server.step x).trace.drop w.server.trace.length).filterMap fun
        | .write fd bytes _ =>
          if bytes = [RequestResult.ok.toByte] then some ⟨fd, era, notify.appMsgId⟩ else none
        | _ => none
    | _ => []
  | none => []

def step (z : Zlib) (l : Ledger) (h : Happening) : Ledger where
  network := l.network.step z h
  asked := l.asked ++ asks l.network h
  taken := l.taken ++ takes z l.network h
  confirmed := l.confirmed ++ confirms l.network h

/-- The only message with the number in the notification is the one of the client that is
looked up. -/
def Answers (l : Ledger) (era : Nat) (notify : Notify) : Prop :=
  let fd := (l.network.server.clients.getClientFdById notify.appMsgId).1
  0 < fd → l.asked.filter (fun r => r.era = era ∧ r.id = notify.appMsgId) =
    [⟨fd, era, notify.appMsgId⟩]

/-- Notifications come from nodes, and are about the message of the client that is looked up. No
node announces a unicast message that its app does not take. -/
structure Fair (z : Zlib) (l : Ledger) (h : Happening) : Prop where
  genuine : ∀ x, h = .request x → ∀ notify, x.tableEvent ≠ .notifies notify
  takes : ∀ addr env f, l.network.handled? h = some (addr, env, f) →
    ¬ Refuses z (l.network.node addr) (env, f.bytes)
  answers : ∀ x era notify, l.network.served? h = some (x, era) →
    x.tableEvent = .notifies notify → l.Answers era notify

/-- Who was told of a success had asked for a message that an app has taken. -/
def Honest (l : Ledger) : Prop :=
  ∀ c ∈ l.confirmed, c ∈ l.asked ∧ (c.era, c.id) ∈ l.taken

/-- What is on its way to the server was written whole, and where it tells of a success it is about
a message that was taken. -/
structure Sound (l : Ledger) : Prop where
  whole : ∀ src, ∀ f ∈ l.network.wire src .server, Whole f.bytes
  wire : ∀ src, ∀ f ∈ l.network.wire src .server, ∀ fd senv id,
    Arrived.tableEvent ⟨fd, senv, f.bytes⟩ = .notifies ⟨.known .gotMessage, id⟩ →
      (f.era, id) ∈ l.taken
  honest : l.Honest

variable {z : Zlib} {l : Ledger} {h : Happening} {w : Network} {x : Arrived} {f : Post}

theorem sound_start (pids : List Int32) : (start pids).Sound :=
  ⟨fun _ _ hf => (List.not_mem_nil hf).elim, fun _ _ hf => (List.not_mem_nil hf).elim,
    fun _ hc => (List.not_mem_nil hc).elim⟩

/-! ## What is on the way to the server -/

/-- The server sends nothing to itself. -/
theorem wire_serve (src : Peer) (hf : f ∈ (w.serve x).wire src .server) :
    f ∈ w.wire src .server := by
  obtain hold | ⟨-, -, hout⟩ := Network.mem_post hf
  · exact hold
  · obtain ⟨e, -, heq⟩ := List.mem_filterMap.mp hout
    split at heq
    · obtain ⟨addr, -, hpair⟩ := Option.map_eq_some_iff.mp heq
      cases hpair
    · cases heq

theorem tableEvent_notify {notify : Notify} {buf : Nat → UInt8} {fd : Int} {senv : ServerEnv} :
    Arrived.tableEvent ⟨fd, senv, (createNotify .node notify).sent buf⟩ = .notifies notify := by
  rw [Arrived.tableEvent, receive_notify]
  rfl

/-- What a node tells the server of a success is about a message that it has just handed over. -/
theorem wire_handle {addr : UInt8} {env : Env} {g : Post} (src : Peer)
    (hnot : ¬ Refuses z (w.node addr) (env, f.bytes))
    (hg : g ∈ (w.handle z addr env f).wire src .server) :
    g ∈ w.wire src .server ∨ Whole g.bytes ∧ ∀ fd senv id,
      Arrived.tableEvent ⟨fd, senv, g.bytes⟩ = .notifies ⟨.known .gotMessage, id⟩ →
        g.era = f.era ∧ .handed id true ∈ newNotices z (w.node addr) (env, f.bytes) := by
  refine (Network.mem_post hg).imp_right ?_
  rintro ⟨-, hera, hout⟩
  obtain ⟨e, he, heq⟩ := List.mem_filterMap.mp hout
  split at heq
  · rename_i port bytes
    have hport : port = serverPort := by
      by_contra hne
      rw [peerOf, if_neg hne] at heq
      cases heq
    have hbytes : bytes = g.bytes := congrArg Prod.snd (Option.some.inj heq)
    subst hport hbytes
    obtain ⟨notify, buf, hnotify, htold⟩ := told_of_send he
    refine ⟨hnotify ▸ (made_notify notify buf).whole, fun fd senv id hevent => ?_⟩
    rw [hnotify, tableEvent_notify] at hevent
    cases hevent
    exact ⟨hera, handed_of_told hnot htold⟩
  · cases heq

/-! ## What the clients are told -/

/-- A success is written to the client that is looked up, when a notification tells of it. -/
theorem confirms_served {era : Nat} {c : Asked} (hserved : w.served? h = some (x, era))
    (hc : c ∈ confirms w h) :
    x.tableEvent = .notifies ⟨.known .gotMessage, c.id⟩ ∧ c.era = era ∧
      c.fd = (w.server.clients.getClientFdById c.id).1 ∧ 0 < c.fd := by
  unfold confirms at hc
  simp only [hserved] at hc
  split at hc
  · rename_i notify hevent
    rw [Server.step_of_notifies hevent] at hc
    obtain ⟨e, he, heq⟩ := List.mem_filterMap.mp hc
    obtain ⟨type, id⟩ := notify
    unfold Server.handleNotify at he
    dsimp only at he heq
    split at he
    · split at he
      · rename_i hfd
        rw [Server.ioWriteAll, List.drop_left, List.mem_singleton] at he
        subst he
        dsimp only at heq
        rw [if_pos rfl] at heq
        cases heq
        exact ⟨hevent, rfl, rfl, hfd⟩
      · rw [List.drop_length] at he
        cases he
    · split at he
      · rw [Server.ioWriteAll, List.drop_left, List.mem_singleton] at he
        subst he
        dsimp only at heq
        rw [if_neg (by decide)] at heq
        cases heq
      · rw [List.drop_length] at he
        cases he
    · rw [List.drop_length] at he
      cases he
  · cases hc

theorem confirms_eq_nil (hserved : w.served? h = none) : confirms w h = [] := by
  rw [confirms, hserved]

theorem honest_confirms (hs : l.Sound) (hfair : l.Fair z h) {c : Asked}
    (hc : c ∈ confirms l.network h) : c ∈ l.asked ∧ (c.era, c.id) ∈ l.taken := by
  cases hserved : l.network.served? h with
  | none =>
    rw [confirms_eq_nil hserved] at hc
    cases hc
  | some served =>
    obtain ⟨x, era⟩ := served
    obtain ⟨hevent, hera, hfd, hpos⟩ := confirms_served hserved hc
    have honly := hfair.answers x era _ hserved hevent (hfd ▸ hpos)
    refine ⟨?_, ?_⟩
    · have hmem : c ∈ l.asked.filter fun r => r.era = era ∧ r.id = c.id := by
        rw [honly, List.mem_singleton, ← hfd, ← hera]
      exact List.mem_of_mem_filter hmem
    · rw [hera]
      cases h with
      | request y =>
        cases hserved
        exact absurd hevent (hfair.genuine _ rfl _)
      | deliver src dst k env fd senv =>
        cases dst with
        | server =>
          obtain ⟨⟨f, rest⟩, hf, heq⟩ := Option.map_eq_some_iff.mp hserved
          cases heq
          exact hs.wire src f (mem_of_frameAt (hs.whole src) hf).1 fd senv c.id hevent
        | node addr => cases hserved
      | lose src dst => cases hserved
      | restart addr => cases hserved

/-! ## Whole runs -/

theorem wire_step (hfair : l.Fair z h) (hs : l.Sound) (src : Peer)
    (hf : f ∈ (l.network.step z h).wire src .server) :
    f ∈ l.network.wire src .server ∨ Whole f.bytes ∧ ∀ fd senv id,
      Arrived.tableEvent ⟨fd, senv, f.bytes⟩ = .notifies ⟨.known .gotMessage, id⟩ →
        (f.era, id) ∈ takes z l.network h := by
  cases h with
  | request x => exact .inl (wire_serve src hf)
  | deliver src' dst k env fd senv =>
    simp only [Network.step] at hf
    split at hf
    · exact .inl hf
    · rename_i g rest hg
      obtain hold | ⟨rfl, -, hleft⟩ := mem_onWire (wire_serve src hf)
      · exact .inl hold
      · exact .inl ((mem_of_frameAt (hs.whole src) hg).2 f hleft)
    · rename_i g rest addr hg
      have hhandled : l.network.handled? (.deliver src' (.node addr) k env fd senv) =
          some (addr, env, g) := by rw [Network.handled?, hg, Option.map_some]
      have hnot := hfair.takes addr env g hhandled
      obtain hold | ⟨hwhole, hnew⟩ := wire_handle (w := { l.network with
        wire := onWire src' (.node addr) (fun _ => rest) l.network.wire }) src hnot hf
      · obtain hold | ⟨-, hnode, -⟩ := mem_onWire hold
        · exact .inl hold
        · cases hnode
      · refine .inr ⟨hwhole, fun fd senv id hevent => ?_⟩
        obtain ⟨hera, hhanded⟩ := hnew fd senv id hevent
        rw [takes, hhandled, hera]
        exact List.mem_filterMap.mpr ⟨_, hhanded, rfl⟩
  | lose src' dst =>
    obtain hold | ⟨-, -, hnone⟩ := mem_onWire hf
    · exact .inl hold
    · cases hnone
  | restart addr =>
    change f ∈ (if Peer.server = .node addr then [] else l.network.wire src .server) at hf
    rw [if_neg Peer.noConfusion] at hf
    exact .inl hf

theorem sound_step (hfair : l.Fair z h) (hs : l.Sound) : (l.step z h).Sound := by
  refine ⟨fun src f hf => ?_, fun src f hf fd senv id hevent => ?_, fun c hc => ?_⟩
  · obtain hold | ⟨hwhole, -⟩ := wire_step hfair hs src hf
    · exact hs.whole src f hold
    · exact hwhole
  · obtain hold | ⟨-, hnew⟩ := wire_step hfair hs src hf
    · exact List.mem_append_left _ (hs.wire src f hold fd senv id hevent)
    · exact List.mem_append_right _ (hnew fd senv id hevent)
  · have hgood : c ∈ l.asked ∧ (c.era, c.id) ∈ l.taken :=
      (List.mem_append.mp hc).elim (hs.honest c) (honest_confirms hs hfair)
    exact ⟨List.mem_append_left _ hgood.1, List.mem_append_left _ hgood.2⟩

/-- What a node hands to its app it reports once, unless it is a unicast message from another node;
and where no such message is announced that the app does not take, a client is told of a success
only when an app has taken its message. -/
theorem reports_and_honest_run (z : Zlib) :
    (∀ n i, Hands z n i → (Reports z n i ↔ ¬ UnicastSend i)) ∧
      ∀ (pids : List Int32) (hs : List Happening), Steps (step z) (Fair z) (start pids) hs →
        (run (step z) (start pids) hs).Honest :=
  ⟨fun _ _ h => reports_iff h, fun pids _ h =>
    (h.invariant Sound (fun _ _ => sound_step) (sound_start pids)).honest⟩

/-! ### A message that arrives -/

/-- The server has node 2 send itself a message. -/
def ownMessage : Env × List UInt8 :=
  (.zeroed .ideal, (createPacket .send .server (NodePacket.renewed (Server.stamp 0
    ⟨2, 2, 0, 0, .blank .delivery, 0⟩))).sent fun _ => 0)

/-- The client of the message is told when node 2 has handed it to its app. -/
def delivered : List Happening :=
  [reportAs 2 7 8, messageFrom 2 5 [], .next .server (.node 2), .next (.node 2) .server]

theorem fair_request {event : TableEvent} (hx : x.tableEvent = event)
    (hevent : ∀ notify, event ≠ .notifies notify) : l.Fair z (.request x) where
  genuine y heq := by
    cases heq
    rwa [hx]
  takes addr env f hhandled := by cases hhandled
  answers y era notify hserved hnotifies := by
    cases hserved
    exact absurd (hx.symm.trans hnotifies) (hevent notify)

theorem fair_delivered : Steps (step .stored) (Fair .stored) (start forked) delivered := by
  let l (n : Nat) := run (step .stored) (start forked) (delivered.take n)
  have htakes : ∀ addr env f, (l 2).network.handled? (.next .server (.node 2)) =
      some (addr, env, f) → ¬ Refuses .stored ((l 2).network.node addr) (env, f.bytes) := by
    rintro addr env f hhandled ⟨p, died, hreceive, -⟩
    have hsender : (((l 2).network.handled? (.next .server (.node 2))).bind fun r =>
        (receive r.2.1.heap r.2.1.stack r.2.2.bytes).map Incoming.sender) =
          some (.known .server) := by decide +kernel
    rw [hhandled] at hsender
    simp [hreceive] at hsender
  have hanswers : ∀ x era notify, (l 3).network.served? (.next (.node 2) .server) = some (x, era) →
      x.tableEvent = .notifies notify → (l 3).Answers era notify := by
    intro x era notify hserved hnotifies
    have hfound : ((l 3).network.served? (.next (.node 2) .server)).map
        (fun r => (r.1.tableEvent, r.2)) = some (.notifies ⟨.known .gotMessage, 0⟩, 0) := by
      decide +kernel
    rw [hserved, Option.map_some, hnotifies] at hfound
    cases hfound
    unfold Answers
    decide +kernel
  exact ⟨fair_request (show _ = TableEvent.other by decide +kernel) nofun,
    fair_request (show _ = TableEvent.registers by decide +kernel) nofun, ⟨nofun, htakes, nofun⟩,
    ⟨nofun, nofun, hanswers⟩, trivial⟩

theorem reports_and_honest_run_delivered :
    (Reports .stored (.start 2) ownMessage ↔ ¬ UnicastSend ownMessage) ∧
      (run (step .stored) (start forked) delivered).confirmed = [⟨5, 0, 0⟩] ∧
        (run (step .stored) (start forked) delivered).Honest := by
  obtain ⟨hreports, hhonest⟩ := reports_and_honest_run .stored
  have hgiven : .handed 0 true ∈ newNotices .stored (.start 2) ownMessage := by decide +kernel
  exact ⟨hreports _ _ (hands_of_mem hgiven), by decide +kernel, hhonest _ _ fair_delivered⟩

/-! ### A unicast message that is cut off -/

/-- A client has node 0 find a receiver for a message of 149 bytes that zlib can only store. -/
def longUnicast : NodePacket :=
  ⟨0, 0, 0, 0, ⟨.known .unicast, 0, 0, 0, 149, Message.zero.memcpy (growing 149), 0⟩, 0⟩

/-- The packet in which node 0 sends the message to node 1. -/
def cutOff : NodePacket :=
  NodePacket.renewed
    { longUnicast with
      receiverAddr := 1
      appPayload := nodeAppSetupDelivery .stored .zero (Server.stamp 0 longUnicast).appPayload }

theorem newNotices_cutOff :
    newNotices .stored (.start 1)
        (.zeroed .ideal, (createPacket .send .node cutOff).sent fun _ => 0) =
      .told ⟨.known .gotMessage, 0⟩ :: report 0 false := by
  decide +kernel

/-- Node 1 answers first, gets the message, and announces it. -/
def announced : List Happening :=
  [.request (Fleet.reportOf 0),
    .request ⟨5, .quiet, (createPacket .unicast .client longUnicast).sent fun _ => 0⟩,
    .next .server (.node 0), .next (.node 0) (.node 1), .next (.node 1) (.node 0),
    .next (.node 0) (.node 1), .next (.node 1) .server]

theorem confirmed_announced :
    let l := run (step .stored) (start forked) announced
    l.confirmed = [⟨5, 0, 0⟩] ∧ l.taken = [] := by
  decide +kernel

theorem honest_announced :
    (¬ ∀ z n i, Hands z n i → Reports z n i) ∧
      ¬ ∀ (z : Zlib) (pids : List Int32) (hs : List Happening),
        (run (step z) (start pids) hs).Honest := by
  refine ⟨fun hclaim => ?_, fun hclaim => ?_⟩
  · have hhanded : .handed 0 false ∈ newNotices .stored (.start 1)
        (.zeroed .ideal, (createPacket .send .node cutOff).sent fun _ => 0) := by
      rw [newNotices_cutOff]
      decide
    obtain ⟨given, accepted, left, happ⟩ := hands_of_mem hhanded
    have hreport := hclaim _ _ _ (hands_of_mem hhanded) given accepted left happ
    rw [newNotices_cutOff] at hreport
    exact absurd (congrArg List.length hreport) (by simp [report])
  · obtain ⟨hconfirmed, htaken⟩ := confirmed_announced
    have hmem := (hclaim .stored forked announced ⟨5, 0, 0⟩ (by rw [hconfirmed]; decide)).2
    rw [htaken] at hmem
    cases hmem

end Ledger

end MeshNet
