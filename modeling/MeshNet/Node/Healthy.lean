import MeshNet.Node.Direct

/-!
# Nodes on a healthy network

Where every connection comes about and every write succeeds, a node that talks to the server and
to its neighbours only gets everything through, and its handlers do one of a few things.
-/

namespace MeshNet

/-- The ports a node has reason to talk to. -/
def Node.ports (n : Node) : List UInt16 := serverPort :: n.neighbors

/-- A node of the mesh that has talked to no other ports. -/
structure Node.Fit (n : Node) : Prop where
  inMesh : InMesh n.addr
  roomy : n.link.Roomy n.ports

/-- The link does what `es` says, in this order, and no more. -/
structure Link.Does (ports : List UInt16) (l l' : Link) (es : List Event) : Prop where
  trace : l'.trace = l.trace ++ es
  roomy : l'.Roomy ports

/-- A packet as it is meant to be: its message fits the array and its checksum is right. -/
structure NodePacket.Sound (p : NodePacket) : Prop where
  fits : p.appPayload.Fits
  crc : isValidCrc p = true

variable {z : Zlib} {env : Env} {n : Node} {p : NodePacket} {l l' : Link} {es : List Event}

theorem sound_renewed (h : p.appPayload.Fits) : p.renewed.Sound := ⟨h, isValidCrc_renewed h⟩

theorem NodePacket.Sound.received (h : p.Sound) (heap : Message) : (p.received heap).Sound := by
  refine ⟨h.fits, ?_⟩
  rw [isValidCrc, h.fits.packetCrc_received]
  exact h.crc

theorem Node.Fit.length_ports (h : n.Fit) : n.ports.length ≤ connectionsCount :=
  Nat.succ_le_succ (length_fillNeighborsPort h.inMesh)

/-! ## What a link does -/

theorem Link.Does.refl {ports : List UInt16} (h : l.Roomy ports) : l.Does ports l [] :=
  ⟨(List.append_nil _).symm, h⟩

theorem Link.Does.app {ports : List UInt16} (h : l.Does ports l' es) (given left : AppPayload)
    (accepted : Bool) :
    l.Does ports (l'.push (.app given accepted left)) (es ++ [.app given accepted left]) :=
  ⟨by rw [Link.push_trace, h.trace, List.append_assoc], (Link.roomy_push _).mpr h.roomy⟩

theorem Link.Does.send (hnet : env.net.Healthy) (hn : n.Fit) (h : l.Does n.ports l' es)
    {port : UInt16} (hport : port ∈ n.ports) (bytes : List UInt8) :
    (l'.getConnAndSend env.net port bytes).1 = true ∧
      l.Does n.ports (l'.getConnAndSend env.net port bytes).2 (es ++ [.send port bytes true]) := by
  obtain ⟨hok, htrace, hroomy⟩ :=
    getConnAndSend_healthy hnet hn.length_ports h.roomy hport bytes
  exact ⟨hok, by rw [htrace, h.trace, List.append_assoc], hroomy⟩

theorem does_sendPacket (hnet : env.net.Healthy) (hn : n.Fit) (h : l.Does n.ports l' es)
    {addr : UInt8} (hadj : Adjacent n.addr addr) (req : Request) :
    (sendPacket env l' addr req p).1 = true ∧
      l.Does n.ports (sendPacket env l' addr req p).2
        (es ++ [.send (nodePort addr) ((createPacket req .node p).sent env.stack) true]) :=
  h.send hnet hn (List.mem_cons_of_mem _ hadj) _

theorem does_notifyServer (hnet : env.net.Healthy) (hn : n.Fit) (h : l.Does n.ports l' es)
    (notify : Notify) :
    l.Does n.ports (l'.notifyServer env notify).2
      (es ++ [.send serverPort ((createNotify .node notify).sent env.stack) true]) :=
  (h.send hnet hn List.mem_cons_self _).2

/-- An app call and the notification about it. -/
theorem does_handToAppAndNotify (hnet : env.net.Healthy) (hn : n.Fit) (h : l.Does n.ports l' es)
    (a : AppPayload) :
    ∃ accepted left notify, l.Does n.ports (handToAppAndNotify z env n l' a).2.2
      (es ++ [.app a accepted left,
        .send serverPort ((createNotify .node notify).sent env.stack) true]) := by
  have happ := h.app a (nodeAppHandleRequest z env.inflated n.apps a).2
    (nodeAppHandleRequest z env.inflated n.apps a).1
  have hnotify := does_notifyServer hnet hn happ
    ⟨.known (if (nodeAppHandleRequest z env.inflated n.apps a).1 then .gotMessage else .fail), a.id⟩
  rw [List.append_assoc] at hnotify
  exact ⟨_, _, _, hnotify⟩

/-- A flood reaches all neighbours. -/
theorem does_broadcastRoute (hnet : env.net.Healthy) (hn : n.Fit) :
    n.link.Does n.ports (n.link.broadcastRoute env n.neighbors p false)
      (n.neighbors.map (.send · ((createPacket .routeDirect .node
        (NodePacket.renewed { p with timeToLive := p.timeToLive - 1 })).sent env.stack) true)) := by
  obtain ⟨htrace, hroomy⟩ := Link.sendAll_healthy hnet hn.length_ports hn.roomy
    (fun port hport => List.mem_cons_of_mem serverPort hport)
    ((createPacket .routeDirect .node
      (NodePacket.renewed { p with timeToLive := p.timeToLive - 1 })).sent env.stack)
  exact ⟨htrace, hroomy⟩

end MeshNet
