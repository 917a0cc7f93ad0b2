import MeshNet.Mesh.System
import MeshNet.Mesh.Wire
import MeshNet.Server.Replies

/-!
# The mesh under all conditions

The server, the nodes and the connections between them, whatever clients ask for and whatever the
network does: connections come about or not, writes fail, connections break and lose what is on
them, and nodes are killed and started anew. What is on a connection is marked with the number of
resets that the server had been asked for when the message entered the mesh. A result for a client
whose descriptor is by then that of a connection to a node is a byte in the stream to this node.
-/

namespace MeshNet
open Library

/-- The message of what is received fits its array. -/
def Sized (heap : Message) (stack : Nat → UInt8) (bytes : List UInt8) : Prop :=
  ∀ incoming ∈ receive heap stack bytes, ∀ p ∈ incoming.parsed.payload, p.Fits

instance (heap : Message) (stack : Nat → UInt8) (bytes : List UInt8) :
    Decidable (Sized heap stack bytes) :=
  inferInstanceAs (Decidable (∀ incoming ∈ receive heap stack bytes,
    ∀ p ∈ incoming.parsed.payload, ∀ a ∈ p.appPayload?, a.messageLen.toNat ≤ 150))

/-- The request came over a connection that the server has accepted, and not over one that it has
made to a child. -/
def Arrived.Apart (x : Arrived) (s : Server) : Prop :=
  0 ≤ x.fd ∧ ∀ child ∈ s.children, child.writeFd ≠ x.fd

/-- A notification does not make the server write its result to a child: the descriptor that is
looked up is not the one of a connection to a child by now. -/
def Arrived.Spares (x : Arrived) (s : Server) : Prop :=
  ∀ notify, x.tableEvent = .notifies notify →
    0 < (s.clients.getClientFdById notify.appMsgId).1 →
      ∀ child ∈ s.children, child.writeFd ≠ (s.clients.getClientFdById notify.appMsgId).1

instance (x : Arrived) (s : Server) : Decidable (x.Apart s) :=
  inferInstanceAs (Decidable (0 ≤ x.fd ∧ ∀ child ∈ s.children, child.writeFd ≠ x.fd))

instance (x : Arrived) (s : Server) : Decidable (x.Spares s) :=
  match h : x.tableEvent with
  | .notifies notify =>
    decidable_of_iff (0 < (s.clients.getClientFdById notify.appMsgId).1 →
        ∀ child ∈ s.children, child.writeFd ≠ (s.clients.getClientFdById notify.appMsgId).1)
      ⟨fun hspares _ heq => by cases h.symm.trans heq; exact hspares, fun hspares => hspares _ h⟩
  | .registers | .restarts | .other => isTrue fun _ heq => by cases h.symm.trans heq

structure Network where
  server : Server
  era : Nat
  node : UInt8 → Node
  wire : Peer → Peer → List Post

namespace Network

/-- The server has forked its nodes. -/
def start (pids : List Int32) : Network := ⟨.start pids, 0, .start, fun _ _ => []⟩

/-- Put frames on the connections of `src`. -/
def post (src : Peer) (era : Nat) (out : List (Peer × List UInt8))
    (wire : Peer → Peer → List Post) : Peer → Peer → List Post :=
  fun a b =>
    if a = src then
      wire a b ++ out.filterMap fun o => if o.1 = b then some ⟨o.2, era⟩ else none
    else wire a b

/-- Change what is on one connection. -/
def onWire (src dst : Peer) (f : List Post → List Post) (wire : Peer → Peer → List Post) :
    Peer → Peer → List Post :=
  fun a b => if a = src ∧ b = dst then f (wire a b) else wire a b

inductive Happening where
  /-- A client, or a node that has just been started, asks the server for something. -/
  | request (x : Arrived)
  /-- A connection from `src` to `dst` delivers. There may be a new one beside one that was closed,
  so that what is read need not be the first that was written. -/
  | deliver (src dst : Peer) (k : Nat) (env : Env) (fd : Int) (senv : ServerEnv)
  /-- The connections break. -/
  | lose (src dst : Peer)
  /-- The node's process is killed, and another one is started in its place. -/
  | restart (addr : UInt8)

/-- The server handles what has arrived. -/
def serve (w : Network) (x : Arrived) : Network :=
  let server := w.server.step x
  let era := if x.tableEvent = .restarts then w.era + 1 else w.era
  { w with
    server := server
    era := era
    wire := post .server era
      (server.sentFrames (server.trace.drop w.server.trace.length)) w.wire }

/-- A node handles what has arrived. -/
def handle (z : Zlib) (w : Network) (addr : UInt8) (env : Env) (f : Post) : Network :=
  let n := nodeStep z (w.node addr) (env, f.bytes)
  { w with
    node := Function.update w.node addr n
    wire := post (.node addr) f.era
      (sentFrames (n.link.trace.drop (w.node addr).link.trace.length)) w.wire }

def step (z : Zlib) (w : Network) : Happening → Network
  | .request x => w.serve x
  | .deliver src dst k env fd senv =>
    match frameAt k (w.wire src dst), dst with
    | none, _ => w
    | some (f, rest), .server =>
      { w with wire := onWire src dst (fun _ => rest) w.wire }.serve ⟨fd, senv, f.bytes⟩
    | some (f, rest), .node addr =>
      { w with wire := onWire src dst (fun _ => rest) w.wire }.handle z addr env f
  | .lose src dst => { w with wire := onWire src dst (fun _ => []) w.wire }
  | .restart addr =>
    { w with
      node := Function.update w.node addr (.start addr)
      wire := fun a b => if b = .node addr then [] else w.wire a b }

/-- The connection has always been the same one, so that it delivers from the beginning. -/
def Happening.InOrder : Happening → Prop
  | .deliver _ _ k .. => k = 0
  | _ => True

/-- The connection delivers to a peer whose memory happens to be zero. -/
def Happening.next (src dst : Peer) : Happening := .deliver src dst 0 (.zeroed .ideal) 9 .quiet

/-- What is about to be handled by the server, and the reset from which its numbers count. -/
def served? (w : Network) : Happening → Option (Arrived × Nat)
  | .request x => some (x, w.era)
  | .deliver src .server k _ fd senv =>
    (frameAt k (w.wire src .server)).map fun r => (⟨fd, senv, r.1.bytes⟩, r.1.era)
  | _ => none

/-- What is about to be handled by a node. -/
def handled? (w : Network) : Happening → Option (UInt8 × Env × Post)
  | .deliver src (.node addr) k env _ _ =>
    (frameAt k (w.wire src (.node addr))).map fun r => (addr, env, r.1)
  | _ => none

/-- Messages fit their arrays, and what comes to the server comes over connections that it has
accepted. -/
def Happening.Proper (w : Network) : Happening → Prop
  | .request x => Sized x.env.heap x.env.stack x.bytes ∧ x.Apart w.server
  | .deliver _ .server _ _ fd senv => ∀ bytes, Arrived.Apart ⟨fd, senv, bytes⟩ w.server
  | .deliver _ (.node _) .. => True
  | .lose .. => True
  | .restart _ => True

instance (w : Network) : (h : Happening) → Decidable (h.Proper w)
  | .request x =>
      inferInstanceAs (Decidable (Sized x.env.heap x.env.stack x.bytes ∧ x.Apart w.server))
  | .deliver _ .server _ _ fd senv => decidable_of_iff (Arrived.Apart ⟨fd, senv, []⟩ w.server)
      ⟨fun h _ => h, fun h => h []⟩
  | .deliver _ (.node _) .. | .lose .. | .restart _ => isTrue trivial

/-- No result is written to a connection to a node. -/
def Happening.Spares (w : Network) (h : Happening) : Prop :=
  ∀ served ∈ w.served? h, served.1.Spares w.server

instance (w : Network) (h : Happening) : Decidable (h.Spares w) :=
  inferInstanceAs (Decidable (∀ served ∈ w.served? h, served.1.Spares w.server))

variable {w : Network} {h : Happening}

/-- A node that handles something is the only one that changes. -/
theorem node_step (z : Zlib) (hhandled : w.handled? h = none)
    (hrestart : ∀ addr, h ≠ .restart addr) : (w.step z h).node = w.node := by
  cases h with
  | request x => rfl
  | deliver src dst k env fd senv =>
    simp only [step]
    split
    · rfl
    · rfl
    · rename_i f rest addr hf
      simp [handled?, hf] at hhandled
  | lose src dst => rfl
  | restart addr => exact absurd rfl (hrestart addr)

theorem node_step_of_handled (z : Zlib) {addr : UInt8} {env : Env} {f : Post}
    (hhandled : w.handled? h = some (addr, env, f)) :
    (w.step z h).node = Function.update w.node addr (nodeStep z (w.node addr) (env, f.bytes)) ∧
      ∀ b, h ≠ .restart b := by
  cases h with
  | deliver src dst k env' fd senv =>
    cases dst with
    | server => cases hhandled
    | node addr' =>
      obtain ⟨⟨g, rest⟩, hg, heq⟩ := Option.map_eq_some_iff.mp hhandled
      cases heq
      refine ⟨?_, fun b => Happening.noConfusion⟩
      simp only [step, hg]
      rfl
  | request x => cases hhandled
  | lose src dst => cases hhandled
  | restart b => cases hhandled

end Network

end MeshNet
