import MeshNet.Mesh.Journey
import MeshNet.Mesh.Refinement
import MeshNet.Mesh.Service
import MeshNet.Node.Reset

/-!
# The mesh offers the service

Clients ask the server for messages to one node, broadcasts and unicasts, in any order, while the
connections deliver. On a healthy network every such run of the mesh is a run of the service, in
which the same letters are on the same connections.
-/

namespace MeshNet
open Library

namespace Mesh

/-- A client asks the server on descriptor `fd` for `req`, or the connection from `src` to `dst`
delivers. -/
inductive Call where
  | client (req : Request) (fd : Int) (packet : NodePacket) (env : ServerEnv)
  | deliver (src dst : Peer) (env : Env) (senv : ServerEnv)

/-- Clients ask for messages that fit their arrays; every connection that a node makes comes about,
and every write of a node succeeds, as does every write of the server for a client that asks for a
message. Whether a result reaches a client is left open. -/
def Call.Healthy : Call → Prop
  | .client req _ packet env =>
    req.CarriesMessage ∧ packet.appPayload.Fits ∧ ∀ n fd, env.write n fd = true
  | .deliver _ _ env _ => env.net.Healthy

def call (z : Zlib) (m : Mesh) : Call → Mesh
  | .client req fd packet env =>
    let server := ({ m.server with clientFd := fd }.handleClientRequest env
      ⟨.known req, some (.packet packet), false⟩).2
    { m with
      server := server
      wire := emit .server 0
        (server.sentFrames (server.trace.drop m.server.trace.length)) m.wire }
  | .deliver src dst env senv => m.step z (.deliver src dst env senv)

/-- The requests for messages to one node are those of before. -/
theorem call_send (z : Zlib) (m : Mesh) (fd : Int) (packet : NodePacket) (env : ServerEnv) :
    m.call z (.client .send fd packet env) = m.step z (.client fd packet env) := rfl

/-- A client asks for a message without a text. -/
def Call.ask (req : Request) (sender receiver : UInt8) : Call :=
  .client req 5 ⟨sender, receiver, 0, 0, .blank .delivery, 0⟩ .quiet

/-- A connection to a node delivers, and everything that the node does succeeds. -/
def Call.hand (src : Peer) (dst : UInt8) : Call :=
  .deliver src (.node dst) (.zeroed .ideal) .quiet

theorem Call.healthy_ask {req : Request} (hreq : req.CarriesMessage) (sender receiver : UInt8) :
    (Call.ask req sender receiver).Healthy := ⟨hreq, fits_blank _, fun _ _ => rfl⟩

theorem Call.healthy_hand (src : Peer) (dst : UInt8) : (Call.hand src dst).Healthy :=
  Net.ideal_healthy

end Mesh

/-! ## What a frame stands for -/

/-- The frames by which letters go over a connection from `src`. -/
inductive LetterOf : Peer → List UInt8 → Letter → Prop
  | plain {src : Peer} {bytes : List UInt8} {msg : Msg} (h : FrameOf src bytes msg) :
      LetterOf src bytes (.plain msg)
  | broadcast {q : NodePacket} (hq : q.appPayload.Fits) (buf : Nat → UInt8) :
      LetterOf .server ((createPacket .broadcast .server q).sent buf)
        (.broadcast q.senderAddr q.appPayload.id)
  | unicast {q : NodePacket} (hq : q.appPayload.Fits) (buf : Nat → UInt8) :
      LetterOf .server ((createPacket .unicast .server q).sent buf)
        (.unicast q.senderAddr q.appPayload.id)
  | contest {a : UInt8} {c : UnicastContest} (hc : c.appPayload.Fits) (haddr : c.nodeAddr = a)
      (buf : Nat → UInt8) :
      LetterOf (.node a) ((createContest .unicastContest .node c).sent buf)
        (.contest a c.appPayload.id)
  | first {a : UInt8} {c : UnicastContest} (hc : c.appPayload.Fits) (haddr : c.nodeAddr = a)
      (buf : Nat → UInt8) :
      LetterOf (.node a) ((createContest .unicastFirst .node c).sent buf)
        (.first a c.appPayload.id)

/-- The events of a node by which it sends the letters `out` and otherwise talks to its apps and to
the server. -/
inductive Posts (a : UInt8) : List Event → List (UInt8 × Letter) → Prop
  | nil : Posts a [] []
  | app {es : List Event} {out : List (UInt8 × Letter)} (given left : AppPayload) (accepted : Bool)
      (h : Posts a es out) : Posts a (.app given accepted left :: es) out
  | notify {es : List Event} {out : List (UInt8 × Letter)} (notify : Notify) (buf : Nat → UInt8)
      (h : Posts a es out) :
      Posts a (.send serverPort ((createNotify .node notify).sent buf) true :: es) out
  | letter {es : List Event} {out : List (UInt8 × Letter)} {bytes : List UInt8} {l : Letter}
      (b : UInt8) (hframe : LetterOf (.node a) bytes l) (h : Posts a es out) :
      Posts a (.send (nodePort b) bytes true :: es) ((b, l) :: out)

/-- The node `n` becomes `n'` and sends what `r` says. -/
structure Serves (n n' : Node) (es : List Event) (r : Core × List (UInt8 × Letter)) : Prop where
  does : n.link.Does n.ports n'.link es
  posts : Posts n.addr es r.2
  core : n'.core = r.1
  host : n.SameHost n'

/-- Where a letter comes from: what the server sends is for the sender, nodes are neighbours and
speak for themselves. -/
def Letter.From (src : Peer) (b : UInt8) (l : Letter) : Prop :=
  match src with
  | .server => InMesh b ∧
      ((∃ receiver id, l = .plain (.send b receiver id)) ∨ (∃ id, l = .broadcast b id) ∨
        ∃ id, l = .unicast b id)
  | .node a => Adjacent a b ∧
      ((∃ msg, l = .plain msg) ∨ (∃ id, l = .contest a id) ∨ ∃ id, l = .first a id)

/-- Routes lead to neighbours, and letters come from where they may. -/
structure Service.Local (s : Service) : Prop where
  routes : ∀ a, (s.state a).routing.Near a
  letters : ∀ src b, ∀ l ∈ s.channel src b, l.From src b

variable {z : Zlib} {env : Env} {senv : ServerEnv} {n n' : Node} {a b : UInt8} {src : Peer}
  {l : Letter} {c : Core} {es : List Event} {s : Service}

/-! ## What was written -/

theorem eq_serverPort {port : UInt16} (h : peerOf port = .server) : port = serverPort := by
  by_contra hne
  rw [peerOf, if_neg hne] at h
  cases h

theorem mem_sentFrames {dst : Peer} {bytes : List UInt8} (h : (dst, bytes) ∈ sentFrames es) :
    ∃ port, peerOf port = dst ∧ .send port bytes true ∈ es := by
  obtain ⟨e, he, heq⟩ := List.mem_filterMap.mp h
  split at heq
  · obtain ⟨hport, rfl⟩ := Prod.mk.inj (Option.some.inj heq)
    exact ⟨_, hport, he⟩
  · cases heq

/-! ## Only neighbours talk to each other -/

theorem Letter.From.fromNear {msg : Msg} (h : Letter.From src b (.plain msg)) :
    FromNear src b msg := by
  cases src with
  | server =>
    obtain ⟨hb, ⟨receiver, id, heq⟩ | ⟨id, heq⟩ | ⟨id, heq⟩⟩ := h
    · exact ⟨hb, receiver, id, Letter.plain.inj heq⟩
    · cases heq
    · cases heq
  | node a => exact h.1

theorem Letter.From.inMesh (h : l.From src b) : InMesh b := by
  cases src with
  | server => exact h.1
  | node a => exact h.1.inMesh

theorem from_serve (hc : c.routing.Near b) (h : l.From src b) :
    (c.serve b src l).1.routing.Near b ∧
      ∀ o ∈ (c.serve b src l).2, o.2.From (.node b) o.1 := by
  have hneighbour : ∀ x ∈ neighbours b, Adjacent b x := fun x => mem_neighbours.mp
  cases l with
  | plain msg =>
    obtain ⟨hnear, hout⟩ := near_react hc h.fromNear
    refine ⟨hnear, ?_⟩
    intro o ho
    obtain ⟨o, ho', rfl⟩ := List.mem_map.mp ho
    exact ⟨hout o ho', .inl ⟨_, rfl⟩⟩
  | broadcast sender id =>
    refine ⟨hc, ?_⟩
    intro o ho
    obtain ⟨x, hx, rfl⟩ := List.mem_map.mp ho
    exact ⟨hneighbour x hx, .inl ⟨_, rfl⟩⟩
  | unicast sender id =>
    refine ⟨hc, ?_⟩
    intro o ho
    obtain ⟨x, hx, rfl⟩ := List.mem_map.mp ho
    exact ⟨hneighbour x hx, .inr (.inl ⟨_, rfl⟩)⟩
  | contest origin id =>
    have hback : Adjacent b origin := by
      cases src with
      | server => obtain ⟨-, ⟨_, _, heq⟩ | ⟨_, heq⟩ | ⟨_, heq⟩⟩ := h <;> cases heq
      | node a =>
        obtain ⟨hadj, ⟨_, heq⟩ | ⟨_, heq⟩ | ⟨_, heq⟩⟩ := h <;> cases heq
        exact hadj.symm
    refine ⟨hc, ?_⟩
    intro o ho
    rw [List.mem_singleton.mp ho]
    exact ⟨hback, .inr (.inr ⟨_, rfl⟩)⟩
  | first contestant id =>
    have hback : Adjacent b contestant := by
      cases src with
      | server => obtain ⟨-, ⟨_, _, heq⟩ | ⟨_, heq⟩ | ⟨_, heq⟩⟩ := h <;> cases heq
      | node a =>
        obtain ⟨hadj, ⟨_, heq⟩ | ⟨_, heq⟩ | ⟨_, heq⟩⟩ := h <;> cases heq
        exact hadj.symm
    refine ⟨hc, ?_⟩
    intro o ho
    simp only [Core.serve, Core.first] at ho
    split at ho
    · rw [List.mem_singleton.mp ho]
      exact ⟨hback, .inl ⟨_, rfl⟩⟩
    · cases ho

theorem local_call (h : s.Local) (i : Service.Label) : (s.step i).Local := by
  cases i with
  | client req sender receiver =>
    refine ⟨h.routes, ?_⟩
    intro src b l hl
    simp only [Service.step] at hl
    split at hl
    · rename_i hmesh
      obtain hold | ⟨rfl, hnew⟩ := mem_post.mp hl
      · exact h.letters src b l hold
      · obtain ⟨rfl, rfl⟩ := Prod.mk.inj (List.mem_singleton.mp hnew)
        refine ⟨hmesh, ?_⟩
        unfold Service.request
        split
        · exact .inr (.inl ⟨_, rfl⟩)
        · exact .inr (.inr ⟨_, rfl⟩)
        · exact .inl ⟨_, _, rfl⟩
    · exact h.letters src b l hl
  | deliver src dst =>
    cases hwire : s.channel src dst with
    | nil =>
      have hsame : (s.step (.deliver src dst)).toParties = s.toParties :=
        Parties.deliver_nil hwire
      exact ⟨hsame ▸ h.routes, hsame ▸ h.letters⟩
    | cons l ls =>
      have hl : l.From src dst := h.letters src dst l (hwire ▸ List.mem_cons_self)
      obtain ⟨hnear, hout⟩ := from_serve (h.routes dst) hl
      refine ⟨Parties.forall_state_deliver hwire (P := fun a c => c.routing.Near a) hnear h.routes,
        ?_⟩
      intro x b m hm
      obtain hold | ⟨rfl, hnew⟩ := Parties.mem_channel_deliver hwire hm
      · exact h.letters x b m hold
      · exact hout (b, m) hnew

end MeshNet
