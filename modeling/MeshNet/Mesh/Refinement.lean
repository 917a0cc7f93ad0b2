import MeshNet.Mesh.Simulation
import MeshNet.Mesh.System
import Mathlib.Data.List.Forall2

/-!
# The mesh refines the protocol

On a healthy network every run of the mesh is matched by a run of the protocol, in which the same
packets are on the same connections and the nodes have the same tables.
-/

namespace MeshNet
open Library

variable {z : Zlib} {env : Env} {senv : ServerEnv} {pids : UInt8 → Int32} {fds : UInt8 ↪ Int}
  {id : UInt16} {a b : UInt8} {src : Peer} {hops : Nat}

/-! ## What is sent -/

/-- A frame on a connection from `src` and the packet it stands for. -/
def Carries (src : Peer) (f : Flight (List UInt8)) (g : Flight Msg) : Prop :=
  FrameOf src f.packet g.packet ∧ f.hops = g.hops

theorem peerOf_nodePort (addr : UInt8) : peerOf (nodePort addr) = .node addr := by
  rw [peerOf, if_neg (nodePort_ne_serverPort addr), nodeAddr_nodePort]

theorem carries_sends {es : List Event} {out : List (UInt8 × Msg)} (h : Sends a es out) :
    List.Forall₂ (Carries (.node a))
      ((sentFrames es).filterMap fun o => if o.1 = .node b then some ⟨o.2, hops⟩ else none)
      (out.filterMap fun o => if o.1 = b then some ⟨o.2, hops⟩ else none) := by
  induction h with
  | nil => exact .nil
  | app _ _ _ _ ih => exact ih
  | notify _ _ _ ih => exact ih
  | packet c hframe _ ih =>
    have hpeer : peerOf (nodePort c) = .node c := peerOf_nodePort c
    by_cases hc : c = b
    · subst hc
      simpa [sentFrames, hpeer] using List.Forall₂.cons ⟨hframe, rfl⟩ ih
    · simpa [sentFrames, hpeer, hc] using ih

/-- All that a node tells the server is what came of messages. -/
theorem notify_sends {es : List Event} {out : List (UInt8 × Msg)} (h : Sends a es out)
    {bytes : List UInt8} (hmem : (Peer.server, bytes) ∈ sentFrames es) :
    ∃ notify buf, bytes = (createNotify .node notify).sent buf := by
  induction h with
  | nil => cases hmem
  | app _ _ _ _ ih => exact ih hmem
  | notify notify buf _ ih =>
    obtain heq | hmem := List.mem_cons.mp hmem
    · exact ⟨notify, buf, (Prod.mk.inj heq).2⟩
    · exact ih hmem
  | packet c _ _ ih =>
    obtain heq | hmem := List.mem_cons.mp hmem
    · rw [peerOf_nodePort] at heq
      cases (Prod.mk.inj heq).1
    · exact ih hmem

/-! ## The requests of clients -/

/-- The children of a server that is connected to all nodes. -/
def startChild (pids : UInt8 → Int32) (fds : UInt8 ↪ Int) (addr : UInt8) : Child :=
  ⟨pids addr, fds addr, addr, nodePort addr⟩

theorem children_start :
    (Mesh.start pids fds id).server.children =
      (List.range nodeCount).map fun i => startChild pids fds (UInt8.ofNat i) := rfl

theorem filter_children {q : Child → Bool} (hq : ∀ b, q (startChild pids fds b) = (b == a)) :
    (Mesh.start pids fds id).server.children.filter q =
      if InMesh a then [startChild pids fds a] else [] := by
  have hsame : ∀ i ∈ List.range nodeCount,
      (q ∘ fun i => startChild pids fds (UInt8.ofNat i)) i = (i == a.toNat) := by
    intro i hi
    have hlt : i < 100 := List.mem_range.mp hi
    rw [Function.comp_apply, hq, Bool.eq_iff_iff, beq_iff_eq, beq_iff_eq, ← UInt8.toNat_inj,
      UInt8.toNat_ofNat', Nat.mod_eq_of_lt (by omega)]
  rw [children_start, List.filter_map, List.filter_congr hsame, List.filter_beq,
    List.nodup_range.count]
  by_cases ha : InMesh a
  · rw [if_pos (List.mem_range.mpr ha), if_pos ha]
    simp
  · rw [if_neg (mt List.mem_range.mp ha), if_neg ha]
    rfl

theorem sendToNodes_healthy (hwrite : ∀ n fd, senv.write n fd = true) (addr : UInt8)
    (bytes : List UInt8) (tr : ServerTrace) (children : List Child) :
    (Server.sendToNodes senv addr bytes tr children).2 =
      tr ++ (children.filter fun child => child.addr == addr).map
        (.write ·.writeFd bytes true) := by
  induction children generalizing tr with
  | nil => exact (List.append_nil _).symm
  | cons child rest ih =>
    by_cases haddr : child.addr = addr
    · simp [Server.sendToNodes, Server.ioWriteAll, hwrite, haddr, ih]
    · simp [Server.sendToNodes, haddr, ih]

/-- The request of a client goes to its sender, if there is such a node. -/
theorem sentFrames_server {s : Server} {bytes : List UInt8}
    (hchildren : s.children = (Mesh.start pids fds id).server.children) :
    s.sentFrames ((s.children.filter fun child => child.addr == a).map
        (.write ·.writeFd bytes true)) =
      if InMesh a then [(.node a, bytes)] else [] := by
  rw [hchildren, filter_children fun b => rfl]
  by_cases ha : InMesh a
  · have hchild : s.childAt (fds a) = some a := by
      rw [Server.childAt, ← List.head?_filter, hchildren,
        filter_children (a := a) (fun b => by
          rw [Bool.eq_iff_iff, beq_iff_eq, beq_iff_eq]
          exact fds.injective.eq_iff), if_pos ha]
      rfl
    simp [ha, Server.sentFrames, startChild, hchild]
  · simp [ha, Server.sentFrames]

/-! ## The relation between the two -/

/-- The mesh `m`, whose server has the children `children`, is where the protocol is in `s`. -/
structure Refines (children : List Child) (m : Mesh) (s : Protocol) : Prop where
  addr : ∀ a, (m.node a).addr = a
  core : ∀ a, (m.node a).core = s.core a
  fit : ∀ a, InMesh a → (m.node a).Fit
  wire : ∀ src b, List.Forall₂ (Carries src) (m.wire src (.node b)) (s.wire src b)
  notices : ∀ src, ∀ f ∈ m.wire src .server,
    ∃ notify buf, f.packet = (createNotify .node notify).sent buf
  children : m.server.children = children
  nextId : m.server.appMsgId = s.nextId
  near : s.Local

/-- The step of the protocol that belongs to a step of the mesh. -/
def Mesh.Label.protocol : Mesh.Label → List Protocol.Label
  | .client _ packet _ => [.client packet.senderAddr packet.receiverAddr]
  | .deliver src (.node addr) _ _ => [.deliver src addr]
  | .deliver _ .server _ _ => []

variable {m : Mesh} {s : Protocol} {children : List Child}

theorem refines_start (pids : UInt8 → Int32) (fds : UInt8 ↪ Int) (id : UInt16) :
    Refines (Mesh.start pids fds id).server.children (Mesh.start pids fds id) (.start id) where
  addr _ := rfl
  core _ := rfl
  fit _ ha := ⟨ha, Link.roomy_initial _⟩
  wire _ _ := .nil
  notices _ := nofun
  children := rfl
  nextId := rfl
  near := local_start id

theorem forall₂_emit {dst x : Peer} {out : List (Peer × List UInt8)} {out' : List (UInt8 × Msg)}
    {wire : Peer → Peer → List (Flight (List UInt8))} {wire' : Peer → UInt8 → List (Flight Msg)}
    (hwire : List.Forall₂ (Carries x) (wire x (.node b)) (wire' x b))
    (hout : List.Forall₂ (Carries dst)
      (out.filterMap fun o => if o.1 = .node b then some ⟨o.2, hops⟩ else none)
      (out'.filterMap fun o => if o.1 = b then some ⟨o.2, hops⟩ else none)) :
    List.Forall₂ (Carries x) (Mesh.emit dst hops out wire x (.node b))
      (Protocol.emit dst hops out' wire' x b) := by
  unfold Mesh.emit Protocol.emit
  by_cases hx : x = dst
  · subst hx
    rw [if_pos rfl, if_pos rfl]
    exact List.rel_append hwire hout
  · rwa [if_neg hx, if_neg hx]

theorem forall₂_pop {x : Peer} {dst : UInt8} {wire : Peer → Peer → List (Flight (List UInt8))}
    {wire' : Peer → UInt8 → List (Flight Msg)}
    (hwire : List.Forall₂ (Carries x) (wire x (.node b)) (wire' x b)) :
    List.Forall₂ (Carries x) (Mesh.pop src (.node dst) wire x (.node b))
      (Protocol.pop src dst wire' x b) := by
  simp only [Mesh.pop, Protocol.pop, Peer.node.injEq]
  split
  · rw [← List.drop_one, ← List.drop_one]
    exact List.forall₂_drop 1 hwire
  · exact hwire

theorem mem_meshEmit {x y : Peer} {f : Flight (List UInt8)} {out : List (Peer × List UInt8)}
    {wire : Peer → Peer → List (Flight (List UInt8))} (h : f ∈ Mesh.emit src hops out wire x y) :
    f ∈ wire x y ∨ (y, f.packet) ∈ out := by
  unfold Mesh.emit at h
  split at h
  · obtain h | h := List.mem_append.mp h
    · exact .inl h
    · obtain ⟨o, ho, hf⟩ := List.mem_filterMap.mp h
      split at hf
      · rename_i hy
        cases Option.some.inj hf
        exact .inr (hy ▸ ho)
      · cases hf
  · exact .inl h

theorem mem_of_mem_meshPop {dst x y : Peer} {f : Flight (List UInt8)}
    {wire : Peer → Peer → List (Flight (List UInt8))} (h : f ∈ Mesh.pop src dst wire x y) :
    f ∈ wire x y := by
  unfold Mesh.pop at h
  split at h
  · exact List.mem_of_mem_tail h
  · exact h

/-! ## Step by step -/

theorem refines_client
    (h : Refines (Mesh.start pids fds id).server.children m s) {fd : Int} {packet : NodePacket}
    (hfits : packet.appPayload.Fits) (hwrite : ∀ n fd, senv.write n fd = true) :
    Refines (Mesh.start pids fds id).server.children (m.step z (.client fd packet senv))
      (s.step (.client packet.senderAddr packet.receiverAddr)) := by
  let frame := (createPacket .send .server
    (Server.stamp m.server.appMsgId packet).renewed).sent senv.stack
  let server := ({ m.server with clientFd := fd }.handleClientRequest senv
    ⟨.known .send, some (.packet packet), false⟩).2
  have hsound : (Server.stamp m.server.appMsgId packet).renewed.Sound := sound_renewed hfits
  have hframe : FrameOf .server frame
      (.send packet.senderAddr packet.receiverAddr m.server.appMsgId) :=
    .request hsound senv.stack
  have hout : server.sentFrames (server.trace.drop m.server.trace.length) =
      if InMesh packet.senderAddr then [(.node packet.senderAddr, frame)] else [] := by
    have htrace : server.trace = m.server.trace ++ _ :=
      sendToNodes_healthy hwrite packet.senderAddr frame m.server.trace m.server.children
    rw [htrace, List.drop_left]
    exact sentFrames_server (s := server) h.children
  rw [h.nextId] at hframe
  have hstep : (m.step z (.client fd packet senv)).wire = Mesh.emit .server 0
      (if InMesh packet.senderAddr then [(.node packet.senderAddr, frame)] else []) m.wire := by
    rw [← hout]
    rfl
  refine ⟨h.addr, h.core, h.fit, fun src b => ?_, fun src f hf => ?_, h.children,
    congrArg (· + 1) h.nextId, local_step h.near _⟩
  · rw [hstep, Protocol.step]
    dsimp only
    split
    · refine forall₂_emit (h.wire src b) ?_
      by_cases hb : packet.senderAddr = b
      · subst hb
        simpa using ⟨hframe, rfl⟩
      · simp [hb]
    · have hsame : List.Forall₂ (Carries src) (Mesh.emit .server 0 [] m.wire src (.node b))
          (Protocol.emit .server 0 [] s.wire src b) := forall₂_emit (h.wire src b) .nil
      simpa [Protocol.emit] using hsame
  · rw [hstep] at hf
    obtain hf | hf := mem_meshEmit hf
    · exact h.notices src f hf
    · split at hf
      · cases (Prod.mk.inj (List.mem_singleton.mp hf)).1
      · cases hf

/-- What a node tells the server changes nothing that matters to the nodes. -/
theorem refines_notify (h : Refines children m s) :
    Refines children (m.step z (.deliver src .server env senv)) s := by
  cases hwire : m.wire src .server with
  | nil => simpa only [Mesh.step, hwire] using h
  | cons f fs =>
    have hf : f ∈ m.wire src .server := hwire ▸ List.mem_cons_self
    obtain ⟨notify, buf, hnotify⟩ := h.notices src f hf
    have hserver : (m.server.handleRequest senv 0 f.packet).2.children = m.server.children ∧
        (m.server.handleRequest senv 0 f.packet).2.appMsgId = m.server.appMsgId := by
      rw [hnotify, Server.handleRequest, receive_notify]
      exact ⟨rfl, rfl⟩
    simp only [Mesh.step, hwire]
    refine ⟨h.addr, h.core, h.fit, fun x b => ?_,
      fun x g hg => h.notices x g (mem_of_mem_meshPop hg), hserver.1.trans h.children,
      hserver.2.trans h.nextId, h.near⟩
    simpa [Mesh.pop] using h.wire x b

theorem refines_deliver (h : Refines children m s) (hnet : env.net.Healthy) {dst : UInt8} :
    Refines children (m.step z (.deliver src (.node dst) env senv))
      (s.step (.deliver src dst)) := by
  have hfront := h.wire src dst
  cases hwire : m.wire src (.node dst) with
  | nil =>
    rw [hwire, List.forall₂_nil_left_iff] at hfront
    rw [Protocol.step_deliver_nil hfront]
    simpa only [Mesh.step, hwire] using h
  | cons f fs =>
    rw [hwire, List.forall₂_cons_left_iff] at hfront
    obtain ⟨g, gs, ⟨hframe, hhops⟩, -, hwire'⟩ := hfront
    have hfrom : FromNear src dst g.packet :=
      h.near.flights src dst g (hwire' ▸ List.mem_cons_self)
    have hnear : (m.node dst).core.routing.Near (m.node dst).addr := by
      rw [h.core, h.addr]
      exact h.near.routes dst
    have hfit := h.fit dst hfrom.inMesh
    obtain ⟨es, hsim⟩ := simulates_nodeStep (z := z) hnet hfit hnear
      ((h.addr dst).symm ▸ hfrom) hframe
    obtain ⟨hdoes, hsends, hcore, hhost⟩ := id hsim
    rw [h.addr dst, h.core dst] at hsends hcore
    have hlocal := local_step h.near (.deliver src dst)
    rw [Protocol.step_deliver_cons hwire'] at hlocal ⊢
    have hout : (nodeStep z (m.node dst) (env, f.packet)).link.trace.drop
        (m.node dst).link.trace.length = es := by
      rw [hdoes.trace, List.drop_left]
    simp only [Mesh.step, hwire, hout]
    refine ⟨fun a => ?_, fun a => ?_, fun a ha => ?_, fun x b => ?_, fun x g' hg => ?_, h.children,
      h.nextId, hlocal⟩
    · by_cases ha : a = dst
      · subst ha
        simpa using hhost.1.trans (h.addr a)
      · simpa [ha] using h.addr a
    · by_cases ha : a = dst
      · subst ha
        simpa using hcore
      · simpa [ha] using h.core a
    · by_cases ha' : a = dst
      · subst ha'
        simpa using hsim.fit hfit
      · simpa [ha'] using h.fit a ha
    · rw [hhops]
      exact forall₂_emit (forall₂_pop (h.wire x b)) (carries_sends hsends)
    · obtain hg | hg := mem_meshEmit hg
      · exact h.notices x g' (mem_of_mem_meshPop hg)
      · exact notify_sends hsends hg

theorem refines_step (h : Refines (Mesh.start pids fds id).server.children m s) {l : Mesh.Label}
    (hl : l.Healthy) :
    Refines (Mesh.start pids fds id).server.children (m.step z l)
      (run Protocol.step s l.protocol) := by
  cases l with
  | client fd packet senv => exact refines_client h hl.1 hl.2
  | deliver src dst env senv =>
    cases dst with
    | server => exact refines_notify h
    | node addr => exact refines_deliver h hl

/-- Every run of the mesh on a healthy network is a run of the protocol. -/
theorem refines_run {ls : List Mesh.Label}
    (hls : Steps (Mesh.step z) (fun _ l => l.Healthy) (Mesh.start pids fds id) ls) :
    Refines (Mesh.start pids fds id).server.children (run (Mesh.step z) (Mesh.start pids fds id) ls)
      (run Protocol.step (.start id) (ls.flatMap Mesh.Label.protocol)) :=
  hls.simulates _ _ (fun _ _ _ hl h => refines_step h hl) (refines_start pids fds id)

end MeshNet
