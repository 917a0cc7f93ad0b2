import MeshNet.Mesh.Frames
import MeshNet.Mesh.Network
import MeshNet.Server.Processes

/-!
# What holds in the mesh under all conditions

Whatever is asked for, lost, broken and killed, as long as the server writes no result to a node:
nodes have routes through their neighbours and connections to these and to the server only, and what
is on its way between them arrives as it was written, with a checksum that is right. A result that
the server writes to a node has the node read everything that follows at the wrong places.
-/

namespace MeshNet
open Library

variable {z : Zlib} {env : ServerEnv} {tr tr' tr'' : ServerTrace} {clientFd fd : Int}
  {children : List Child} {bytes : List UInt8}

/-! ## What the server writes -/

/-- From `tr` to `tr'` the server writes frames for nodes, and whatever it likes to the descriptors
that `P` allows. -/
def WritesOnly (P : Int → Prop) (tr tr' : ServerTrace) : Prop :=
  ∃ es, tr' = tr ++ es ∧ ∀ fd bytes ok, .write fd bytes ok ∈ es → ServerFrame bytes ∨ P fd

variable {P : Int → Prop}

theorem writesOnly_refl : WritesOnly P tr tr := ⟨[], (List.append_nil _).symm, nofun⟩

theorem WritesOnly.trans (h : WritesOnly P tr tr') (h' : WritesOnly P tr' tr'') :
    WritesOnly P tr tr'' := by
  obtain ⟨es, rfl, hes⟩ := h
  obtain ⟨es', rfl, hes'⟩ := h'
  refine ⟨es ++ es', List.append_assoc .., fun fd bytes ok hmem => ?_⟩
  obtain hmem | hmem := List.mem_append.mp hmem
  · exact hes fd bytes ok hmem
  · exact hes' fd bytes ok hmem

theorem writesOnly_write (h : ServerFrame bytes ∨ P fd) (ok : Bool) :
    WritesOnly P tr (tr ++ [.write fd bytes ok]) := by
  refine ⟨_, rfl, fun fd' bytes' ok' hmem => ?_⟩
  cases List.mem_singleton.mp hmem
  exact h

theorem writesOnly_sendResToClient (h : P clientFd) (res : RequestResult) :
    WritesOnly P tr (Server.sendResToClient env tr clientFd res).2 :=
  writesOnly_write (.inr h) _

theorem writesOnly_sendToNodes (addr : UInt8) (h : ServerFrame bytes) :
    WritesOnly P tr (Server.sendToNodes env addr bytes tr children).2 := by
  induction children generalizing tr with
  | nil => exact writesOnly_refl
  | cons child rest ih =>
    rw [Server.sendToNodes]
    dsimp only
    split_ifs
    · exact writesOnly_write (.inl h) _
    · exact (writesOnly_write (.inl h) _).trans ih
    · exact ih

theorem writesOnly_killNode (addr : UInt8) :
    WritesOnly P tr (Server.killNode tr children addr).2.2 := by
  obtain heq | ⟨i, c, -, heq⟩ := killNode_cases tr children addr
  · rw [heq]
    exact writesOnly_refl
  · rw [heq]
    exact ⟨_, rfl, fun fd bytes ok hmem => by simp at hmem⟩

theorem writesOnly_reviveNode (child : Child) :
    WritesOnly P tr (Server.reviveNode env tr child).2 :=
  ⟨_, rfl, fun fd bytes ok hmem => by simp at hmem⟩

theorem writesOnly_resetNodes (h : P clientFd) :
    WritesOnly P tr (Server.resetNodes env clientFd tr children).2 := by
  induction children generalizing tr with
  | nil => exact writesOnly_refl
  | cons child rest ih =>
    rw [Server.resetNodes]
    dsimp only
    split
    · have hreset : WritesOnly P tr (Server.ioWriteAll env tr child.writeFd
          ((createAddr .reset .server none).sent env.stack)).2 :=
        writesOnly_write (.inl (.control (.inr rfl) _)) _
      split
      · exact hreset.trans ih
      · exact (hreset.trans (writesOnly_sendResToClient h .unknown)).trans ih
    · exact (writesOnly_reviveNode child).trans ih

theorem writesOnly_handleRevive (h : P clientFd) (addr : UInt8) (res : Bool) :
    WritesOnly P tr (Server.handleRevive env addr clientFd res tr children).2.2 := by
  induction children generalizing tr res with
  | nil => exact writesOnly_refl
  | cons child rest ih =>
    rw [Server.handleRevive]
    dsimp only
    split
    · split
      · exact ((writesOnly_reviveNode child).trans (writesOnly_sendResToClient h .ok)).trans (ih _)
      · exact (writesOnly_sendResToClient h .err).trans (ih _)
    · exact ih res

/-- A result goes to the descriptor that was looked up. -/
theorem writesOnly_handleNotify (notify : Notify) (h : 0 < fd → P fd) :
    WritesOnly P tr (Server.handleNotify env tr fd notify).2 := by
  unfold Server.handleNotify
  split
  · split
    · exact writesOnly_write (.inr (h ‹_›)) _
    · exact writesOnly_refl
  · split
    · exact writesOnly_write (.inr (h ‹_›)) _
    · exact writesOnly_refl
  · exact writesOnly_refl

theorem writesOnly_handleUpdateChild (update : NodeUpdate) :
    WritesOnly P tr (Server.handleUpdateChild env tr update children).2 := by
  obtain ⟨-, heq⟩ | ⟨i, c, fd, -, -, heq⟩ := handleUpdateChild_cases env tr update children
  · rw [heq]
    exact writesOnly_refl
  · rw [heq]
    exact ⟨_, rfl, fun fd bytes ok hmem => by simp at hmem⟩

/-- A ping hands the client what the node has answered. -/
theorem writesOnly_handlePing (h : P clientFd) (addr : UInt8) :
    WritesOnly P tr (Server.handlePing env tr children clientFd addr).2 := by
  have hping (child : Child) : WritesOnly P tr (Server.ioWriteAll env tr child.writeFd
      ((createAddr .ping .server none).sent env.stack)).2 :=
    writesOnly_write (.inl (.control (.inl rfl) _)) _
  unfold Server.handlePing
  dsimp only
  split
  · exact writesOnly_refl
  · split_ifs
    · exact writesOnly_sendResToClient h .err
    · exact (hping _).trans (writesOnly_sendResToClient h .err)
    · exact (hping _).trans (writesOnly_write (.inr h) _)
    · exact (hping _).trans (writesOnly_sendResToClient h .err)

/-- The descriptors to which the server writes answers: that of the request, and the one that is
looked up for a notification. -/
def Arrived.RepliesTo (x : Arrived) (s : Server) (fd : Int) : Prop :=
  fd = x.fd ∨ ∃ notify, x.tableEvent = .notifies notify ∧ 0 < fd ∧
    fd = (s.clients.getClientFdById notify.appMsgId).1

variable {x : Arrived} {s : Server}

theorem fits_stamp {id : UInt16} {p : NodePacket} (h : p.appPayload.Fits) :
    (Server.stamp id p).appPayload.Fits := h

/-- Whatever the server handles, it writes frames for nodes, and answers to the descriptors that
are to have them. -/
theorem writesOnly_step (hfits : Sized x.env.heap x.env.stack x.bytes) :
    WritesOnly (x.RepliesTo s) s.trace (s.step x).trace := by
  have hfd : x.RepliesTo s x.fd := .inl rfl
  unfold Server.step Server.handleRequest
  cases hreceive : receive x.env.heap x.env.stack x.bytes with
  | none => exact writesOnly_refl
  | some incoming =>
    obtain ⟨sender, req, payload, died⟩ := incoming
    have hpacket : ∀ p, payload = some (.packet p) → p.appPayload.Fits := fun p hp =>
      hfits _ hreceive (.packet p) hp _ rfl
    dsimp only
    unfold Server.listenerHandle
    split
    · unfold Server.handleClientRequest
      split
      · rename_i p _ hp
        have hsound : (NodePacket.renewed (Server.stamp s.appMsgId p)).Sound :=
          sound_renewed (hpacket p hp)
        exact writesOnly_sendToNodes _ (.send hsound _)
      · exact writesOnly_handlePing hfd _
      · exact (writesOnly_killNode _).trans (writesOnly_sendResToClient hfd _)
      · exact (writesOnly_resetNodes hfd).trans (writesOnly_sendResToClient hfd .ok)
      · exact writesOnly_handleRevive hfd _ _
      · rename_i p _ hp
        exact writesOnly_sendToNodes _ (.spread (.inl rfl) (fits_stamp (hpacket p hp)) _)
      · rename_i p _ hp
        exact writesOnly_sendToNodes _ (.spread (.inr rfl) (fits_stamp (hpacket p hp)) _)
      · exact writesOnly_refl
    · rename_i hsender
      unfold Server.handleNodeRequest
      split
      · exact writesOnly_handleUpdateChild _
      · rename_i notify hreq hpayload
        refine writesOnly_handleNotify _ fun hpos => .inr ⟨notify, ?_, hpos, rfl⟩
        dsimp only at hsender hreq hpayload
        simp only [Arrived.tableEvent, hreceive, Incoming.tableEvent, hsender, hreq, hpayload]
      · exact writesOnly_refl
    · exact writesOnly_refl

/-- No answer is written to a connection to a child. -/
theorem childAt_eq_none (hapart : x.Apart s) (hspares : x.Spares s) {bytes : List UInt8} {ok : Bool}
    (hwrite : .write fd bytes ok ∈ (s.step x).trace.drop s.trace.length)
    (hreplies : x.RepliesTo s fd) : (s.step x).childAt fd = none := by
  obtain ⟨es, htrace, hchanges⟩ := changes_step s x
  rw [htrace, List.drop_left] at hwrite
  have hpos : 0 ≤ fd := by
    obtain rfl | ⟨-, -, hpos, -⟩ := hreplies
    · exact hapart.1
    · omega
  have hother : ∀ c ∈ s.children, c.writeFd ≠ fd := by
    obtain rfl | ⟨notify, hevent, hpos, rfl⟩ := hreplies
    · exact hapart.2
    · exact hspares notify hevent hpos
  rw [Server.childAt, Option.map_eq_none_iff, List.find?_eq_none]
  intro c hc hfd
  obtain hclosed | ⟨c', hc', hsame⟩ | hquiet := hchanges.writeFd_cases hc
  · have heq : c.writeFd = fd := by simpa using hfd
    omega
  · exact hother c' hc' (hsame.trans (by simpa using hfd))
  · exact hquiet _ _ _ hwrite

/-! ## What frames hold -/

theorem ServerFrame.sized (h : ServerFrame bytes) (heap : Message) (stack : Nat → UInt8) :
    Sized heap stack bytes := by
  intro incoming hincoming payload hpayload a ha
  cases h with
  | control hreq buf =>
    obtain rfl | rfl := hreq
    · cases hincoming
      cases hpayload
      cases ha
    · cases hincoming
      cases hpayload
  | send hp buf =>
    rw [receive_packet rfl hp.fits] at hincoming
    cases hincoming
    cases hpayload
    cases ha
    exact hp.fits
  | spread hreq hfits buf =>
    rw [receive_packet (by obtain rfl | rfl := hreq <;> rfl) hfits] at hincoming
    cases hincoming
    cases hpayload
    cases ha
    exact hfits

theorem NodeFrame.sized {a : UInt8} (h : NodeFrame a bytes) (heap : Message)
    (stack : Nat → UInt8) : Sized heap stack bytes := by
  intro incoming hincoming payload hpayload b hb
  cases h with
  | send hp buf =>
    rw [receive_packet rfl hp.fits] at hincoming
    cases hincoming
    cases hpayload
    cases hb
    exact hp.fits
  | route hreq hp hlocal buf =>
    rw [receive_packet (by obtain rfl | rfl := hreq <;> rfl) hp.fits] at hincoming
    cases hincoming
    cases hpayload
    cases hb
    exact hp.fits
  | contest hreq hc hfrom buf =>
    rw [receive_contest hreq hc] at hincoming
    cases hincoming
    cases hpayload
    cases hb
    exact hc

namespace Network

/-! ## The invariant -/

/-- What may be on a connection. -/
def MayCarry : Peer → Peer → List UInt8 → Prop
  | .server, .server, _ => False
  | .server, .node _, bytes => ServerFrame bytes
  | .node a, .node b, bytes => Adjacent a b ∧ NodeFrame a bytes
  | .node _, .server, bytes => ∃ notify buf, bytes = (createNotify .node notify).sent buf

/-- All nodes are settled, and connections carry what they may. -/
structure Settled (w : Network) : Prop where
  addr : ∀ a, (w.node a).addr = a
  node : ∀ a, (w.node a).Settled
  wire : ∀ src dst, ∀ f ∈ w.wire src dst, MayCarry src dst f.bytes

variable {w : Network} {src dst : Peer} {f : Post} {a b : UInt8} {rest : List Post} {k : Nat}

theorem MayCarry.mayArrive {bytes : List UInt8} (h : MayCarry src (.node b) bytes) :
    MayArrive b bytes := by
  cases src with
  | server => exact .inl h
  | node a => exact .inr ⟨a, h.1, h.2⟩

theorem MayCarry.made {bytes : List UInt8} (h : MayCarry src dst bytes) :
    ∃ sender, Made sender bytes := by
  cases src with
  | server =>
    cases dst with
    | server => exact h.elim
    | node b => exact ⟨.server, ServerFrame.made h⟩
  | node a =>
    cases dst with
    | server =>
      obtain ⟨notify, buf, rfl⟩ := h
      exact ⟨.node, made_notify notify buf⟩
    | node b => exact ⟨.node, h.2.made⟩

theorem mayCarry_of_maySend {port : UInt16} {bytes : List UInt8} (h : MaySend a port bytes) :
    MayCarry (.node a) (peerOf port) bytes := by
  cases h with
  | notify notify buf => exact ⟨notify, buf, rfl⟩
  | @frame b hadj bytes hframe =>
    rw [peerOf, if_neg (nodePort_ne_serverPort b), nodeAddr_nodePort]
    exact ⟨hadj, hframe⟩

theorem MayCarry.sized {bytes : List UInt8} (h : MayCarry src dst bytes) (heap : Message)
    (stack : Nat → UInt8) : Sized heap stack bytes := by
  cases src with
  | server =>
    cases dst with
    | server => exact h.elim
    | node b => exact ServerFrame.sized h heap stack
  | node a =>
    cases dst with
    | server =>
      obtain ⟨notify, buf, rfl⟩ := h
      intro incoming hincoming p hp a ha
      rw [receive_notify] at hincoming
      cases hincoming
      cases hp
      cases ha
    | node b => exact h.2.sized heap stack

theorem nodes_update {n : Node} (haddr : n.addr = a) (hn : n.Settled) (h : w.Settled) (b : UInt8) :
    (Function.update w.node a n b).addr = b ∧ (Function.update w.node a n b).Settled := by
  by_cases hb : b = a
  · subst hb
    rw [Function.update_self]
    exact ⟨haddr, hn⟩
  · rw [Function.update_of_ne hb]
    exact ⟨h.addr b, h.node b⟩

theorem settled_start (pids : List Int32) : (start pids).Settled :=
  ⟨fun _ => rfl, MeshNet.settled_start, fun _ _ _ hf => by cases hf⟩

/-- What is put on the connections of `src` is what was to be sent. -/
theorem mem_post {era : Nat} {out : List (Peer × List UInt8)} {wire : Peer → Peer → List Post}
    {p q : Peer} (h : f ∈ post src era out wire p q) :
    f ∈ wire p q ∨ p = src ∧ f.era = era ∧ (q, f.bytes) ∈ out := by
  unfold post at h
  split at h
  · rename_i hsrc
    obtain hold | hnew := List.mem_append.mp h
    · exact .inl hold
    · obtain ⟨⟨peer, bytes⟩, hmem, heq⟩ := List.mem_filterMap.mp hnew
      dsimp only at heq
      split at heq
      · rename_i hpeer
        cases heq
        exact .inr ⟨hsrc, rfl, hpeer ▸ hmem⟩
      · cases heq
  · exact .inl h

theorem mem_onWire {wire : Peer → Peer → List Post} {p q : Peer}
    (h : f ∈ onWire src dst (fun _ => rest) wire p q) :
    f ∈ wire p q ∨ p = src ∧ q = dst ∧ f ∈ rest := by
  unfold onWire at h
  split at h
  · rename_i hsame
    exact .inr ⟨hsame.1, hsame.2, h⟩
  · exact .inl h

/-- A frame that is taken off a connection was written to it at once, and the others stay. -/
theorem mem_of_frameAt {posts : List Post} (hwhole : ∀ g ∈ posts, Whole g.bytes)
    (h : frameAt k posts = some (f, rest)) : f ∈ posts ∧ ∀ g ∈ rest, g ∈ posts := by
  rw [frameAt_eq hwhole] at h
  obtain ⟨g, hg, heq⟩ := Option.map_eq_some_iff.mp h
  cases heq
  exact ⟨List.mem_of_getElem? hg, fun _ hmem => List.mem_of_mem_eraseIdx hmem⟩

theorem Settled.whole (h : w.Settled) (src dst : Peer) : ∀ f ∈ w.wire src dst, Whole f.bytes := by
  intro f hf
  obtain ⟨sender, hmade⟩ := (h.wire src dst f hf).made
  exact hmade.whole

/-- What is read off a connection is what may be on it, and so is what stays. -/
theorem Settled.taken (h : w.Settled) (htaken : frameAt k (w.wire src dst) = some (f, rest)) :
    MayCarry src dst f.bytes ∧
      Settled { w with wire := onWire src dst (fun _ => rest) w.wire } := by
  obtain ⟨hmem, hrest⟩ := mem_of_frameAt (h.whole src dst) htaken
  refine ⟨h.wire src dst f hmem, h.addr, h.node, fun p q g hg => ?_⟩
  obtain hold | ⟨rfl, rfl, hleft⟩ := mem_onWire hg
  · exact h.wire p q g hold
  · exact h.wire p q g (hrest g hleft)

theorem settled_serve (hfits : Sized x.env.heap x.env.stack x.bytes) (hapart : x.Apart w.server)
    (hspares : x.Spares w.server) (h : w.Settled) : (w.serve x).Settled := by
  refine ⟨h.addr, h.node, fun p q f hf => ?_⟩
  obtain hold | ⟨rfl, -, hout⟩ := mem_post hf
  · exact h.wire p q f hold
  · obtain ⟨e, he, heq⟩ := List.mem_filterMap.mp hout
    split at heq
    · rename_i fd bytes
      obtain ⟨addr, haddr, hpair⟩ := Option.map_eq_some_iff.mp heq
      cases hpair
      obtain ⟨es, htrace, hes⟩ := writesOnly_step (s := w.server) hfits
      have hwrite := he
      rw [htrace, List.drop_left] at hwrite
      obtain hframe | hreplies := hes fd _ true hwrite
      · exact hframe
      · rw [childAt_eq_none hapart hspares he hreplies] at haddr
        cases haddr
    · cases heq

theorem settled_handle {env : Env} (harrive : MayArrive a f.bytes) (h : w.Settled) :
    (w.handle z a env f).Settled := by
  have hnode := h.node a
  have harrive' : MayArrive (w.node a).addr f.bytes := by rwa [h.addr]
  have hstep := settled_nodeStep z env hnode harrive'
  have haddr := (sameHost_nodeStep (z := z) hnode.apps (env, f.bytes)).1.trans (h.addr a)
  refine ⟨fun b => (nodes_update haddr hstep h b).1, fun b => (nodes_update haddr hstep h b).2,
    fun p q g hg => ?_⟩
  · obtain hold | ⟨rfl, -, hout⟩ := mem_post hg
    · exact h.wire p q g hold
    · obtain hreset | ⟨hsends, -⟩ := nodeStep_cases z env hnode.routes harrive'
      · have hnone : (handleReset (w.node a)).link.trace.drop (w.node a).link.trace.length = [] :=
          List.drop_length
        rw [hreset, hnone] at hout
        cases hout
      · obtain ⟨es, htrace, hes⟩ := hsends.trace
        rw [htrace, List.drop_left, sentFrames] at hout
        obtain ⟨e, he, heq⟩ := List.mem_filterMap.mp hout
        split at heq
        · rename_i port bytes
          cases heq
          have hmay : MaySend (w.node a).addr port g.bytes := hes _ he
          rw [h.addr] at hmay
          exact mayCarry_of_maySend hmay
        · cases heq

theorem settled_step {i : Happening} (hi : i.Proper w ∧ i.Spares w) (h : w.Settled) :
    (w.step z i).Settled := by
  obtain ⟨hproper, hspares⟩ := hi
  cases i with
  | request x => exact settled_serve hproper.1 hproper.2 (hspares (x, w.era) rfl) h
  | deliver src dst k env fd senv =>
    simp only [step]
    split
    · exact h
    · rename_i f rest hf
      obtain ⟨hcarry, hrest⟩ := h.taken hf
      have hserved : w.served? (.deliver src .server k env fd senv) =
          some (⟨fd, senv, f.bytes⟩, f.era) := by rw [served?, hf, Option.map_some]
      exact settled_serve (hcarry.sized _ _) (hproper f.bytes) (hspares _ hserved) hrest
    · rename_i f rest addr hf
      obtain ⟨hcarry, hrest⟩ := h.taken hf
      exact settled_handle hcarry.mayArrive hrest
  | lose src dst =>
    refine ⟨h.addr, h.node, fun p q f hf => ?_⟩
    obtain hold | ⟨-, -, hnone⟩ := mem_onWire hf
    · exact h.wire p q f hold
    · cases hnone
  | restart addr =>
    have hupdate := nodes_update rfl (MeshNet.settled_start addr) h
    refine ⟨fun b => (hupdate b).1, fun b => (hupdate b).2, fun p q f hf => ?_⟩
    change f ∈ (if q = .node addr then [] else w.wire p q) at hf
    split at hf
    · cases hf
    · exact h.wire p q f hf

theorem mayArrive_of_handled {i : Happening} {env : Env} (h : w.Settled)
    (hhandled : w.handled? i = some (b, env, f)) : MayArrive (w.node b).addr f.bytes := by
  rw [h.addr]
  cases i with
  | deliver src dst j env' fd senv =>
    cases dst with
    | server => cases hhandled
    | node b' =>
      obtain ⟨⟨g, rest⟩, hg, heq⟩ := Option.map_eq_some_iff.mp hhandled
      cases heq
      exact (h.taken hg).1.mayArrive
  | request x => cases hhandled
  | lose src dst => cases hhandled
  | restart b' => cases hhandled

/-! ## Neighbours and slots -/

/-- The process of the node `i` reports on the descriptor `on`, and the server is connected to it by
`fd`. -/
def reportAs (i : Nat) (on fd : Int) : Happening :=
  .request ⟨on, { ServerEnv.quiet with connect := fun _ _ => fd },
    (createUpdate (Int32.ofNat (i + 1)) .node ⟨0, nodePort (UInt8.ofNat i), UInt8.ofNat i⟩).bytes⟩

/-- A client has node `sender` send a message of `text` to node 2. -/
def messageFrom (sender : UInt8) (fd : Int) (text : List UInt8) : Happening :=
  .request ⟨fd, .quiet, (createPacket .send .client ⟨sender, 2, 0, 0, ⟨.known .delivery, 0, 0, 0,
    UInt8.ofNat text.length, Message.zero.memcpy text, 0⟩, 0⟩).bytes⟩

/-- A client has node 1 pinged, which does not answer. -/
def pinging : Happening :=
  .request ⟨6, { ServerEnv.quiet with recv := fun _ => (-1, fun _ => 0) },
    (createAddr .ping .client (some 1)).bytes⟩

end Network

end MeshNet
