import MeshNet.Mesh.Calls
import MeshNet.Mesh.Loops

/-!
# The service is what the mesh offers

Handler by handler a node does with a frame what the service says of the letter it stands for; from
this, every run of the mesh is matched by a run of the service.
-/

namespace MeshNet
open Library

variable {z : Zlib} {env : Env} {senv : ServerEnv} {n n' : Node} {a b : UInt8} {src : Peer}
  {l : Letter} {c : Core} {es : List Event} {p : NodePacket}

/-! ## Handler by handler -/

theorem posts_of_sends {out : List (UInt8 × Msg)} (h : Sends a es out) :
    Posts a es (out.map fun o => (o.1, .plain o.2)) := by
  induction h with
  | nil => exact .nil
  | app given left accepted _ ih => exact .app given left accepted ih
  | notify notify buf _ ih => exact .notify notify buf ih
  | packet b hframe _ ih => exact .letter b (.plain hframe) ih

/-- A letter to each of several nodes. -/
theorem posts_map {frame : UInt8 → List UInt8} {letter : UInt8 → Letter}
    (hframe : ∀ b, LetterOf (.node a) (frame b) (letter b)) {ports : List UInt16}
    (hports : ∀ port ∈ ports, ∃ b, port = nodePort b) :
    Posts a (ports.map fun port => .send port (frame (nodeAddr port)) true)
      ((ports.map nodeAddr).map fun b => (b, letter b)) := by
  induction ports with
  | nil => exact .nil
  | cons port ports ih =>
    obtain ⟨b, rfl⟩ := hports port List.mem_cons_self
    simp only [List.map_cons, nodeAddr_nodePort]
    exact .letter b (hframe b) (ih fun q hq => hports q (List.mem_cons_of_mem _ hq))

theorem appId?_sends (ports : List UInt16) (frame : UInt16 → List UInt8) :
    (ports.map fun port => Event.send port (frame port) true).filterMap Event.appId? = [] := by
  induction ports with
  | nil => rfl
  | cons port ports ih => exact ih

/-- A node that sends a letter to each of its neighbours. -/
theorem serves_each {link : Link} (frame : UInt8 → List UInt8) (letter : UInt8 → Letter)
    (hframe : ∀ b, LetterOf (.node n.addr) (frame b) (letter b))
    (hdoes : n.link.Does n.ports link
      (n.neighbors.map fun port => .send port (frame (nodeAddr port)) true)) :
    ∃ es, Serves n { n with link := link } es
      (n.core, (neighbours n.addr).map fun b => (b, letter b)) := by
  have hports : ∀ port ∈ n.neighbors, ∃ b, port = nodePort b := by
    intro port hport
    obtain ⟨b, hb, -⟩ := exists_of_mem_fillNeighborsPort hport
    exact ⟨b, hb⟩
  have hcore : Node.core { n with link := link } = n.core :=
    core_of_silent hdoes (appId?_sends _ fun port => frame (nodeAddr port))
  exact ⟨_, hdoes, posts_map hframe hports, hcore, rfl, rfl⟩

/-- A broadcast sends each neighbour a packet of its own. -/
theorem Link.broadcast_healthy {link : Link} {ports : List UInt16} (hnet : env.net.Healthy)
    (hports : ports.length ≤ connectionsCount) (hl : link.Roomy ports) {dests : List UInt16}
    (hdests : ∀ port ∈ dests, port ∈ ports) :
    (link.broadcast env dests p).trace = link.trace ++ dests.map (fun port =>
        .send port ((createPacket .send .node
          (NodePacket.renewed { p with receiverAddr := nodeAddr port })).sent env.stack) true) ∧
      (link.broadcast env dests p).Roomy ports := by
  induction dests generalizing link with
  | nil => exact ⟨(List.append_nil _).symm, hl⟩
  | cons port dests ih =>
    obtain ⟨-, htrace, hroomy⟩ :=
      getConnAndSend_healthy hnet hports hl (hdests port List.mem_cons_self)
        ((createPacket .send .node
          (NodePacket.renewed { p with receiverAddr := nodeAddr port })).sent env.stack)
    obtain ⟨htrace', hroomy'⟩ := ih hroomy fun q hq => hdests q (List.mem_cons_of_mem _ hq)
    refine ⟨htrace'.trans ?_, hroomy'⟩
    rw [htrace, List.append_assoc]
    rfl

theorem serves_handleBroadcast (hnet : env.net.Healthy) (hn : n.Fit) (hp : p.appPayload.Fits) :
    ∃ es, Serves n (handleBroadcast z env n p) es
      (n.core.serve n.addr .server (.broadcast p.senderAddr p.appPayload.id)) := by
  have hfits : (nodeAppSetupDelivery z env.deflated p.appPayload).Fits := fits_setupDelivery hp
  have hid : (nodeAppSetupDelivery z env.deflated p.appPayload).id = p.appPayload.id :=
    id_setupDelivery
  rw [← hid]
  unfold handleBroadcast
  generalize nodeAppSetupDelivery z env.deflated p.appPayload = payload at hfits
  obtain ⟨htrace, hroomy⟩ := Link.broadcast_healthy (p := { p with appPayload := payload }) hnet
    hn.length_ports hn.roomy
    fun port hport => List.mem_cons_of_mem serverPort hport
  refine serves_each
    (fun b => (createPacket .send .node
      (NodePacket.renewed { p with appPayload := payload, receiverAddr := b })).sent env.stack)
    (fun b => .plain (.send p.senderAddr b payload.id)) (fun b => ?_) ⟨htrace, hroomy⟩
  exact .plain (.send (q := NodePacket.renewed
    { p with appPayload := payload, receiverAddr := b }) (sound_renewed hfits) _)

theorem serves_handleServerUnicast (hnet : env.net.Healthy) (hn : n.Fit)
    (hp : p.appPayload.Fits) :
    ∃ es, Serves n (handleServerUnicast z env n p) es
      (n.core.serve n.addr .server (.unicast p.senderAddr p.appPayload.id)) := by
  have hfits : (nodeAppSetupDelivery z env.deflated p.appPayload).Fits := fits_setupDelivery hp
  have hid : (nodeAppSetupDelivery z env.deflated p.appPayload).id = p.appPayload.id :=
    id_setupDelivery
  rw [← hid]
  unfold handleServerUnicast
  generalize nodeAppSetupDelivery z env.deflated p.appPayload = payload at hfits
  obtain ⟨htrace, hroomy⟩ := Link.sendAll_healthy hnet hn.length_ports hn.roomy
    (fun port hport => List.mem_cons_of_mem serverPort hport)
    ((createContest .unicastContest .node ⟨.known .unicastContest, n.addr, payload⟩).sent env.stack)
  exact serves_each
    (fun _ => (createContest .unicastContest .node
      ⟨.known .unicastContest, n.addr, payload⟩).sent env.stack)
    (fun _ => .contest n.addr payload.id)
    (fun b => .contest (c := ⟨.known .unicastContest, n.addr, payload⟩) hfits rfl _)
    ⟨htrace, hroomy⟩

/-- An invitation is answered at once. -/
theorem serves_handleUnicastContest {u : UnicastContest} (hnet : env.net.Healthy) (hn : n.Fit)
    (hu : u.appPayload.Fits) (hadj : Adjacent n.addr u.nodeAddr) :
    ∃ es, Serves n (handleUnicastContest env n u) es
      (n.core.serve n.addr src (.contest u.nodeAddr u.appPayload.id)) := by
  obtain ⟨-, hdoes⟩ := Link.Does.send hnet hn (.refl hn.roomy)
    (List.mem_cons_of_mem serverPort hadj)
    ((createContest .unicastFirst .node { u with nodeAddr := n.addr }).sent env.stack)
  have hcore : (handleUnicastContest env n u).core = n.core := core_of_silent hdoes rfl
  exact ⟨_, hdoes, .letter _ (.first (c := { u with nodeAddr := n.addr }) hu rfl _) .nil, hcore,
    rfl, rfl⟩

theorem handleUnicastFirst_link (env : Env) (n : Node) (u : UnicastContest) :
    (handleUnicastFirst env n u).link =
      if n.messages.lookup u.appPayload.id = none then
        (sendPacket env n.link u.nodeAddr .send
          (NodePacket.renewed ⟨n.addr, u.nodeAddr, 0, 0, u.appPayload, 0⟩)).2
      else n.link := by
  have hfst : (n.messages.getUnicastStatusById u.appPayload.id).1 =
      (n.messages.lookup u.appPayload.id).map (·.unicastFirst) := MessageTable.getFlag_fst _
  simp only [handleUnicastFirst, hfst]
  cases n.messages.lookup u.appPayload.id with
  | none => rfl
  | some m => cases hfirst : m.unicastFirst <;> simp [hfirst]

/-- The first answer to a contest is awarded the message. -/
theorem serves_handleUnicastFirst {u : UnicastContest} (hnet : env.net.Healthy) (hn : n.Fit)
    (hu : u.appPayload.Fits) (hadj : Adjacent n.addr u.nodeAddr) :
    ∃ es, Serves n (handleUnicastFirst env n u) es
      (n.core.serve n.addr src (.first u.nodeAddr u.appPayload.id)) := by
  obtain ⟨haddr, happs⟩ : n.SameHost (handleUnicastFirst env n u) :=
    sameHost_handleUnicastFirst u
  have hmessages : (handleUnicastFirst env n u).messages =
      n.messages.answered u.appPayload.id := messages_handleUnicastFirst
  have hrouting : (handleUnicastFirst env n u).routing = n.routing := by
    unfold handleUnicastFirst
    dsimp only
    split <;> rfl
  have hlink := handleUnicastFirst_link env n u
  have hlookup : n.core.messages.lookup u.appPayload.id = n.messages.lookup u.appPayload.id := rfl
  simp only [Core.serve, Core.first, hlookup]
  split at hlink
  · rename_i hnew
    obtain ⟨-, hdoes⟩ := does_sendPacket (p := NodePacket.renewed
      ⟨n.addr, u.nodeAddr, 0, 0, u.appPayload, 0⟩) hnet hn (.refl hn.roomy) hadj .send
    rw [← hlink] at hdoes
    refine ⟨_, hdoes, ?_, ?_, haddr, happs⟩
    · rw [if_pos hnew]
      exact .letter _ (.plain (.send (q := NodePacket.renewed
        ⟨n.addr, u.nodeAddr, 0, 0, u.appPayload, 0⟩) (sound_renewed hu) _)) .nil
    · rw [core_of_silent hdoes rfl, hmessages, hrouting]
      rfl
  · rename_i hknown
    have hdoes : n.link.Does n.ports (handleUnicastFirst env n u).link [] := by
      rw [hlink]
      exact .refl hn.roomy
    refine ⟨_, hdoes, ?_, ?_, haddr, happs⟩
    · rw [if_neg hknown]
      exact .nil
    · rw [core_of_silent hdoes rfl, hmessages, hrouting]
      rfl

/-- A node that handles a frame does what the service says of the letter it stands for. -/
theorem serves_nodeStep {bytes : List UInt8} (hnet : env.net.Healthy) (hn : n.Fit)
    (hnear : n.routing.Near n.addr) (hfrom : l.From src n.addr) (hframe : LetterOf src bytes l) :
    ∃ es, Serves n (nodeStep z n (env, bytes)) es (n.core.serve n.addr src l) := by
  cases hframe with
  | plain h =>
    obtain ⟨es, hdoes, hsends, hcore, hhost⟩ :=
      simulates_nodeStep (z := z) hnet hn hnear hfrom.fromNear h
    exact ⟨es, hdoes, posts_of_sends hsends, hcore, hhost⟩
  | broadcast hq buf =>
    rw [nodeStep_packet rfl hq]
    exact serves_handleBroadcast hnet hn hq
  | unicast hq buf =>
    rw [nodeStep_packet rfl hq]
    exact serves_handleServerUnicast hnet hn hq
  | contest hc haddr buf =>
    subst haddr
    rw [nodeStep_contest rfl hc]
    exact serves_handleUnicastContest hnet hn hc hfrom.1.symm
  | first hc haddr buf =>
    subst haddr
    rw [nodeStep_contest rfl hc]
    exact serves_handleUnicastFirst hnet hn hc hfrom.1.symm

/-! ## The relation between the two -/

/-- The mesh `m`, whose server has the children `children`, is where the service is in `s`. -/
structure Offers (children : List Child) (m : Mesh) (s : Service) : Prop where
  addr : ∀ a, (m.node a).addr = a
  core : ∀ a, (m.node a).core = s.state a
  fit : ∀ a, InMesh a → (m.node a).Fit
  wire : ∀ src b, List.Forall₂ (fun f l => LetterOf src f.packet l) (m.wire src (.node b))
    (s.channel src b)
  notices : ∀ src, ∀ f ∈ m.wire src .server,
    ∃ notify buf, f.packet = (createNotify .node notify).sent buf
  children : m.server.children = children
  nextId : m.server.appMsgId = s.nextId
  near : s.Local

/-- The step of the service that belongs to a step of the mesh, if there is one. -/
def Mesh.Call.service : Mesh.Call → Option Service.Label
  | .client req _ packet _ => some (.client req packet.senderAddr packet.receiverAddr)
  | .deliver src (.node addr) _ _ => some (.deliver src addr)
  | .deliver _ .server _ _ => none

variable {m : Mesh} {s : Service} {children : List Child} {pids : UInt8 → Int32}
  {fds : UInt8 ↪ Int} {id : UInt16} {hops : Nat}

theorem offers_start (pids : UInt8 → Int32) (fds : UInt8 ↪ Int) (id : UInt16) :
    Offers (Mesh.start pids fds id).server.children (Mesh.start pids fds id) (.start id) where
  addr _ := rfl
  core _ := rfl
  fit _ ha := ⟨ha, Link.roomy_initial _⟩
  wire _ _ := .nil
  notices _ := nofun
  children := rfl
  nextId := rfl
  near := ⟨fun _ => near_fillDefault, nofun⟩

theorem forall₂_post {dst x : Peer} {out : List (Peer × List UInt8)} {out' : List (UInt8 × Letter)}
    {wire : Peer → Peer → List (Flight (List UInt8))} {channel : Peer → UInt8 → List Letter}
    (hwire : List.Forall₂ (fun f l => LetterOf x f.packet l) (wire x (.node b)) (channel x b))
    (hout : List.Forall₂ (fun f l => LetterOf dst f.packet l)
      (out.filterMap fun o => if o.1 = .node b then some (⟨o.2, hops⟩ : Flight (List UInt8))
        else none)
      (out'.filterMap fun o => if o.1 = b then some o.2 else none)) :
    List.Forall₂ (fun f l => LetterOf x f.packet l) (Mesh.emit dst hops out wire x (.node b))
      (post dst out' channel x b) := by
  unfold Mesh.emit post
  by_cases hx : x = dst
  · subst hx
    rw [if_pos rfl, if_pos rfl]
    exact List.rel_append hwire hout
  · rwa [if_neg hx, if_neg hx]

theorem forall₂_pull {x : Peer} {dst : UInt8} {wire : Peer → Peer → List (Flight (List UInt8))}
    {channel : Peer → UInt8 → List Letter}
    (hwire : List.Forall₂ (fun f l => LetterOf x f.packet l) (wire x (.node b)) (channel x b)) :
    List.Forall₂ (fun f l => LetterOf x f.packet l) (Mesh.pop src (.node dst) wire x (.node b))
      (pull src dst channel x b) := by
  simp only [Mesh.pop, pull, Peer.node.injEq]
  split
  · rw [← List.drop_one, ← List.drop_one]
    exact List.forall₂_drop 1 hwire
  · exact hwire

/-- What a node writes to another one is what it sends to it. -/
theorem forall₂_posts {out : List (UInt8 × Letter)} (h : Posts a es out) :
    List.Forall₂ (fun f l => LetterOf (.node a) f.packet l)
      ((sentFrames es).filterMap fun o =>
        if o.1 = .node b then some (⟨o.2, hops⟩ : Flight (List UInt8)) else none)
      (out.filterMap fun o => if o.1 = b then some o.2 else none) := by
  induction h with
  | nil => exact .nil
  | app _ _ _ _ ih => exact ih
  | notify _ _ _ ih => exact ih
  | letter c hframe _ ih =>
    have hpeer : peerOf (nodePort c) = .node c := peerOf_nodePort c
    by_cases hc : c = b
    · subst hc
      simp only [sentFrames, List.filterMap_cons, hpeer, if_true]
      exact .cons hframe ih
    · simpa [sentFrames, hpeer, hc] using ih

/-- All that a node tells the server is what came of messages. -/
theorem notify_posts {out : List (UInt8 × Letter)} (h : Posts a es out) {bytes : List UInt8}
    (hmem : (Peer.server, bytes) ∈ sentFrames es) :
    ∃ notify buf, bytes = (createNotify .node notify).sent buf := by
  induction h with
  | nil => cases hmem
  | app _ _ _ _ ih => exact ih hmem
  | notify notify buf _ ih =>
    obtain heq | hmem := List.mem_cons.mp hmem
    · exact ⟨notify, buf, (Prod.mk.inj heq).2⟩
    · exact ih hmem
  | letter c _ _ ih =>
    obtain heq | hmem := List.mem_cons.mp hmem
    · rw [peerOf_nodePort] at heq
      cases (Prod.mk.inj heq).1
    · exact ih hmem

/-! ## Step by step -/

/-- The server writes the request to its sender, if there is such a node. -/
theorem offers_request (h : Offers (Mesh.start pids fds id).server.children m s)
    (hwrite : ∀ n fd, senv.write n fd = true) {req : Request} {sender receiver : UInt8}
    {frame : List UInt8} (hframe : LetterOf .server frame
      (Service.request req sender receiver s.nextId)) {server : Server}
    (htrace : server.trace =
      (Server.sendToNodes senv sender frame m.server.trace m.server.children).2)
    (hchildren : server.children = m.server.children)
    (hnextId : server.appMsgId = m.server.appMsgId + 1) :
    Offers (Mesh.start pids fds id).server.children
      { m with
        server := server
        wire := Mesh.emit .server 0
          (server.sentFrames (server.trace.drop m.server.trace.length)) m.wire }
      (s.step (.client req sender receiver)) := by
  have hout : server.sentFrames (server.trace.drop m.server.trace.length) =
      if InMesh sender then [(.node sender, frame)] else [] := by
    rw [htrace, sendToNodes_healthy hwrite, List.drop_left, ← hchildren]
    exact sentFrames_server (hchildren.trans h.children)
  rw [hout]
  refine ⟨h.addr, h.core, h.fit, fun src b => ?_, fun src f hf => ?_,
    hchildren.trans h.children, by rw [hnextId, h.nextId]; rfl, local_call h.near _⟩
  · simp only [Service.step]
    split
    · refine forall₂_post (h.wire src b) ?_
      by_cases hb : sender = b
      · subst hb
        simpa using hframe
      · simp [hb]
    · have hsame : List.Forall₂ (fun f l => LetterOf src f.packet l)
          (Mesh.emit .server 0 [] m.wire src (.node b)) (post .server [] s.channel src b) :=
        forall₂_post (h.wire src b) .nil
      rwa [post_nil] at hsame
  · obtain hf | hf := mem_meshEmit hf
    · exact h.notices src f hf
    · split at hf
      · cases (Prod.mk.inj (List.mem_singleton.mp hf)).1
      · cases hf

theorem offers_client (h : Offers (Mesh.start pids fds id).server.children m s) {req : Request}
    (hreq : req.CarriesMessage) {fd : Int} {packet : NodePacket}
    (hfits : packet.appPayload.Fits) (hwrite : ∀ n fd, senv.write n fd = true) :
    Offers (Mesh.start pids fds id).server.children (m.call z (.client req fd packet senv))
      (s.step (.client req packet.senderAddr packet.receiverAddr)) := by
  have hstamp : (Server.stamp m.server.appMsgId packet).appPayload.Fits := hfits
  obtain rfl | rfl | rfl := hreq
  · have hframe : LetterOf .server
        ((createPacket .send .server (Server.stamp m.server.appMsgId packet).renewed).sent
          senv.stack)
        (Service.request .send packet.senderAddr packet.receiverAddr m.server.appMsgId) :=
      .plain (.request (sound_renewed hstamp) senv.stack)
    rw [h.nextId] at hframe
    exact offers_request h hwrite (by rwa [h.nextId]) rfl rfl rfl
  · have hframe : LetterOf .server
        ((createPacket .broadcast .server (Server.stamp m.server.appMsgId packet)).sent senv.stack)
        (Service.request .broadcast packet.senderAddr packet.receiverAddr m.server.appMsgId) :=
      .broadcast hstamp senv.stack
    rw [h.nextId] at hframe
    exact offers_request h hwrite (by rwa [h.nextId]) rfl rfl rfl
  · have hframe : LetterOf .server
        ((createPacket .unicast .server (Server.stamp m.server.appMsgId packet)).sent senv.stack)
        (Service.request .unicast packet.senderAddr packet.receiverAddr m.server.appMsgId) :=
      .unicast hstamp senv.stack
    rw [h.nextId] at hframe
    exact offers_request h hwrite (by rwa [h.nextId]) rfl rfl rfl

/-- What a node tells the server changes nothing that matters to the nodes. -/
theorem offers_notify (h : Offers children m s) :
    Offers children (m.call z (.deliver src .server env senv)) s := by
  rw [Mesh.call]
  cases hwire : m.wire src .server with
  | nil => simpa only [Mesh.step, hwire] using h
  | cons f fs =>
    have hf : f ∈ m.wire src .server := hwire ▸ List.mem_cons_self
    obtain ⟨notify, buf, hnotify⟩ := h.notices src f hf
    have hserver : (m.server.handleRequest senv 0 f.packet).2.children = m.server.children ∧
        (m.server.handleRequest senv 0 f.packet).2.appMsgId = m.server.appMsgId := by
      rw [hnotify, Server.handleRequest, receive_notify]
      exact ⟨rfl, rfl⟩
    simp only [Mesh.step, hwire]
    refine ⟨h.addr, h.core, h.fit, fun x b => ?_,
      fun x g hg => h.notices x g (mem_of_mem_meshPop hg), hserver.1.trans h.children,
      hserver.2.trans h.nextId, h.near⟩
    simpa [Mesh.pop] using h.wire x b

/-- A node does with the frame that is delivered to it what the service says of its letter. -/
theorem Offers.serves (h : Offers children m s) (hnet : env.net.Healthy) {dst : UInt8}
    {f : Flight (List UInt8)} {fs : List (Flight (List UInt8))}
    (hwire : m.wire src (.node dst) = f :: fs) :
    ∃ l ls es, s.channel src dst = l :: ls ∧ (m.node dst).Fit ∧
      Serves (m.node dst) (nodeStep z (m.node dst) (env, f.packet)) es
        ((m.node dst).core.serve (m.node dst).addr src l) := by
  have hfront := h.wire src dst
  rw [hwire, List.forall₂_cons_left_iff] at hfront
  obtain ⟨l, ls, hframe, -, hwire'⟩ := hfront
  have hfrom : l.From src dst := h.near.letters src dst l (hwire' ▸ List.mem_cons_self)
  have hnear : (m.node dst).core.routing.Near (m.node dst).addr := by
    rw [h.core, h.addr]
    exact h.near.routes dst
  have hfit := h.fit dst hfrom.inMesh
  obtain ⟨es, hserves⟩ := serves_nodeStep (z := z) hnet hfit hnear
    ((h.addr dst).symm ▸ hfrom) hframe
  exact ⟨l, ls, es, hwire', hfit, hserves⟩

theorem offers_deliver (h : Offers children m s) (hnet : env.net.Healthy) {dst : UInt8} :
    Offers children (m.call z (.deliver src (.node dst) env senv))
      (s.step (.deliver src dst)) := by
  rw [Mesh.call]
  cases hwire : m.wire src (.node dst) with
  | nil =>
    have hfront := h.wire src dst
    rw [hwire, List.forall₂_nil_left_iff] at hfront
    have hsame : s.step (.deliver src dst) = s := by
      rw [Service.step, Parties.deliver_nil hfront]
    rw [hsame]
    simpa only [Mesh.step, hwire] using h
  | cons f fs =>
    obtain ⟨l, ls, es, hwire', hfit, hdoes, hposts, hcore, hhost⟩ := h.serves (z := z) hnet hwire
    have hports : (nodeStep z (m.node dst) (env, f.packet)).ports = (m.node dst).ports := by
      rw [Node.ports, Node.neighbors, hhost.1]
      rfl
    rw [h.addr dst, h.core dst] at hposts hcore
    have hlocal := local_call h.near (.deliver src dst)
    rw [Service.step, Parties.deliver_cons hwire'] at hlocal ⊢
    have hout : (nodeStep z (m.node dst) (env, f.packet)).link.trace.drop
        (m.node dst).link.trace.length = es := by
      rw [hdoes.trace, List.drop_left]
    simp only [Mesh.step, hwire, hout]
    refine ⟨fun a => ?_, fun a => ?_, fun a ha => ?_, fun x b => ?_, fun x g hg => ?_, h.children,
      h.nextId, hlocal⟩
    · by_cases ha : a = dst
      · subst ha
        simpa using hhost.1.trans (h.addr a)
      · simpa [ha] using h.addr a
    · by_cases ha : a = dst
      · subst ha
        simpa using hcore
      · simpa [ha] using h.core a
    · by_cases ha' : a = dst
      · subst ha'
        simp only [Function.update_self]
        exact ⟨hhost.1 ▸ hfit.inMesh, hports ▸ hdoes.roomy⟩
      · simpa [ha'] using h.fit a ha
    · exact forall₂_post (forall₂_pull (h.wire x b)) (forall₂_posts hposts)
    · obtain hg | hg := mem_meshEmit hg
      · exact h.notices x g (mem_of_mem_meshPop hg)
      · exact notify_posts hposts hg

theorem offers_call (h : Offers (Mesh.start pids fds id).server.children m s) {i : Mesh.Call}
    (hi : i.Healthy) :
    Offers (Mesh.start pids fds id).server.children (m.call z i)
      (run Service.step s i.service.toList) := by
  cases i with
  | client req fd packet senv => exact offers_client h hi.1 hi.2.1 hi.2.2
  | deliver src dst env senv =>
    cases dst with
    | server => exact offers_notify h
    | node addr => exact offers_deliver h hi

/-- Every run of the mesh on a healthy network is a run of the service. -/
theorem offers_run (z : Zlib) (pids : UInt8 → Int32) (fds : UInt8 ↪ Int) (id : UInt16)
    {is : List Mesh.Call} (his : ∀ i ∈ is, i.Healthy) :
    Offers (Mesh.start pids fds id).server.children
      (run (Mesh.call z) (Mesh.start pids fds id) is)
      (run Service.step (.start id) (is.flatMap fun i => i.service.toList)) :=
  (steps_of_forall (P := fun _ i => i.Healthy) fun _ i hi => his i hi).simulates _ _
    (fun _ _ _ hi h => offers_call h hi) (offers_start pids fds id)

theorem offers_run_ask :
    Offers (Mesh.start (fun _ => 0) Mesh.descriptors 0).server.children
      (run (Mesh.call .stored) (Mesh.start (fun _ => 0) Mesh.descriptors 0)
        [.ask .unicast 5 0, .hand .server 5])
      (run Service.step (.start 0)
        ([Mesh.Call.ask .unicast 5 0, .hand .server 5].flatMap fun i => i.service.toList)) := by
  refine offers_run .stored (fun _ => 0) Mesh.descriptors 0 ?_
  intro i hi
  obtain rfl | hi := List.mem_cons.mp hi
  · exact Mesh.Call.healthy_ask (.inr (.inr rfl)) 5 0
  · rw [List.mem_singleton.mp hi]
    exact Mesh.Call.healthy_hand .server 5

end MeshNet
