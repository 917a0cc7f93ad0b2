import MeshNet.Format.Create
import MeshNet.Node.Neighbours

/-!
# The connections of a node and what it sends

A node keeps a connection open to every port it has ever sent to, in a fixed number of slots.
What the network does is a parameter: for every attempt, numbered by what the node has done
before, whether a connection comes about and whether a write succeeds. Everything a node does
that others can observe is recorded in its trace.
-/

namespace MeshNet

/-- The slots, for the server and for the neighbours. -/
abbrev connectionsCount : Nat := 29

structure Conn where
  fd : Int
  port : UInt16
  deriving DecidableEq

def Conn.free : Conn := ⟨-1, 65535⟩

def Conn.isLive (c : Conn) : Bool := c.fd > 0

/-- The network around a node. A new descriptor is never the one of the standard input. -/
structure Net where
  connect : Nat → UInt16 → Int
  write : Nat → UInt16 → Bool
  reply : Nat → Bool
  connect_range : ∀ n port, connect n port = -1 ∨ 0 < connect n port

/-- Every attempt succeeds. -/
structure Net.Healthy (net : Net) : Prop where
  connect : ∀ n port, 0 < net.connect n port
  write : ∀ n port, net.write n port = true

/-- What the handling of one request depends on besides the request: the network, and what
uninitialised memory holds. That is the message array of a fresh payload, the local arrays of
`compress_message` and `decompress_message`, and the buffers of frames. -/
structure Env where
  net : Net
  heap : Message
  deflated : Message
  inflated : Message
  stack : Nat → UInt8

def Net.ideal : Net := ⟨fun _ _ => 3, fun _ _ => true, fun _ => true, fun _ _ => .inr (by decide)⟩

theorem Net.ideal_healthy : Net.ideal.Healthy :=
  ⟨fun _ _ => (by decide : (0 : Int) < 3), fun _ _ => rfl⟩

/-- Memory that happens to be zero. -/
def Env.zeroed (net : Net) : Env := ⟨net, .zero, .zero, .zero, fun _ => 0⟩

inductive Event where
  | send (port : UInt16) (bytes : List UInt8) (ok : Bool)
  | app (given : AppPayload) (accepted : Bool) (left : AppPayload)
  | reply (res : RequestResult) (ok : Bool)
  deriving DecidableEq

structure Link where
  connections : List Conn
  trace : List Event
  length_connections : connections.length = connectionsCount

namespace Link

/-- All slots free, as the first call of `get_conn` makes them. -/
def initial : Link := ⟨List.replicate connectionsCount .free, [], List.length_replicate⟩

def push (l : Link) (e : Event) : Link := { l with trace := l.trace ++ [e] }

def setConn (l : Link) (i : Nat) (c : Conn) : Link where
  connections := l.connections.set i c
  trace := l.trace
  length_connections := by simp [l.length_connections]

def isOpen (l : Link) (port : UInt16) : Bool :=
  l.connections.any fun c => c.isLive && c.port == port

/-- The open connection to the port, or a new one in the first free slot. A failed attempt
stores the `-1` that the slot already holds. -/
def getConn (net : Net) (l : Link) (port : UInt16) : Int × Link :=
  match l.connections.find? fun c => c.isLive && c.port == port with
  | some c => (c.fd, l)
  | none =>
    match l.connections.findIdx? fun c => c.fd == -1 with
    | some i =>
      let fd := net.connect l.trace.length port
      if fd < 0 then (-1, l) else (fd, l.setConn i ⟨fd, port⟩)
    | none => (-1, l)

/-- `node_essentials_get_conn_and_send`. -/
def getConnAndSend (net : Net) (l : Link) (port : UInt16) (bytes : List UInt8) : Bool × Link :=
  let (fd, l) := l.getConn net port
  let ok := fd ≥ 0 && net.write l.trace.length port
  (ok, l.push (.send port bytes ok))

/-- The same bytes to one port after the other. -/
def sendAll (net : Net) (l : Link) (ports : List UInt16) (bytes : List UInt8) : Link :=
  ports.foldl (fun l port => (l.getConnAndSend net port bytes).2) l

/-- `node_essentials_reset_connections` closes all connections but those to the server. -/
def resetConnections (l : Link) : Link where
  connections := l.connections.map fun c =>
    if c.port ≠ serverPort ∧ c.fd > 0 ∧ c.port < 65535 then .free else c
  trace := l.trace
  length_connections := by simp [l.length_connections]

def notifyServer (env : Env) (l : Link) (notify : Notify) : Bool × Link :=
  l.getConnAndSend env.net serverPort ((createNotify .node notify).sent env.stack)

def broadcastRoute (env : Env) (l : Link) (neighbors : List UInt16) (routePayload : NodePacket)
    (stopBroadcast : Bool) : Link :=
  if !stopBroadcast then
    let routePayload := { routePayload with timeToLive := routePayload.timeToLive - 1 }
    let routePayload := { routePayload with crc := packetCrc routePayload }
    l.sendAll env.net neighbors ((createPacket .routeDirect .node routePayload).sent env.stack)
  else l

/-- Each neighbour is made the receiver of its own copy. -/
def broadcast (env : Env) (l : Link) (neighbors : List UInt16) (broadcastPayload : NodePacket) :
    Link :=
  neighbors.foldl (fun l port =>
    let p := { broadcastPayload with receiverAddr := nodeAddr port }
    let p := { p with crc := packetCrc p }
    (l.getConnAndSend env.net port ((createPacket .send .node p).sent env.stack)).2) l

def sendUnicastContest (env : Env) (l : Link) (neighbors : List UInt16)
    (unicast : UnicastContest) : Link :=
  l.sendAll env.net neighbors ((createContest .unicastContest .node unicast).sent env.stack)

/-- The answer goes to the node the contest came from, with this node as the contestant. -/
def sendUnicastFirst (env : Env) (l : Link) (unicast : UnicastContest) (addr : UInt8) : Link :=
  (l.getConnAndSend env.net (nodePort unicast.nodeAddr)
    ((createContest .unicastFirst .node { unicast with nodeAddr := addr }).sent env.stack)).2

/-! ## The slots -/

variable {net : Net} {l l' : Link} {port : UInt16} {bytes : List UInt8}

@[simp] theorem push_connections (e : Event) : (l.push e).connections = l.connections := rfl

@[simp] theorem push_trace (e : Event) : (l.push e).trace = l.trace ++ [e] := rfl

@[simp] theorem setConn_trace (i : Nat) (c : Conn) : (l.setConn i c).trace = l.trace := rfl

/-- A connection is taken as it is, or made in a free slot, or not had at all. -/
theorem getConn_cases (net : Net) (l : Link) (port : UInt16) :
    (l.isOpen port = true ∧ 0 < (l.getConn net port).1 ∧ (l.getConn net port).2 = l) ∨
    (l.isOpen port = false ∧ ∃ i c, l.connections[i]? = some c ∧ c.fd = -1 ∧
      0 < net.connect l.trace.length port ∧
      l.getConn net port = (net.connect l.trace.length port,
        l.setConn i ⟨net.connect l.trace.length port, port⟩)) ∨
    (l.isOpen port = false ∧ l.getConn net port = (-1, l) ∧
      ((∀ c ∈ l.connections, c.fd ≠ -1) ∨ net.connect l.trace.length port = -1)) := by
  unfold getConn
  split
  · rename_i c h
    have hc : (c.isLive && c.port == port) = true :=
      List.find?_some (p := fun c : Conn => c.isLive && c.port == port) h
    have hfd : 0 < c.fd := by simpa [Conn.isLive] using (Bool.and_eq_true_iff.mp hc).1
    exact .inl ⟨List.any_eq_true.mpr ⟨c, List.mem_of_find?_eq_some h, hc⟩, hfd, rfl⟩
  · rename_i h
    have hclosed : l.isOpen port = false := by
      simpa only [isOpen, List.any_eq_false] using List.find?_eq_none.mp h
    split
    · rename_i i hi
      obtain ⟨hlt, hfd, -⟩ := List.findIdx?_eq_some_iff_getElem.mp hi
      rcases net.connect_range l.trace.length port with hno | hyes
      · right; right
        simp [hclosed, hno]
      · right; left
        refine ⟨hclosed, i, _, List.getElem?_eq_getElem hlt, by simpa using hfd, hyes, ?_⟩
        rw [if_neg (by omega)]
    · rename_i hi
      refine .inr (.inr ⟨hclosed, rfl, .inl ?_⟩)
      simpa using hi

/-! ## What is done to a link -/

@[simp] theorem getConn_trace : (l.getConn net port).2.trace = l.trace := by
  obtain ⟨-, -, h⟩ | ⟨-, i, c, -, -, -, h⟩ | ⟨-, h, -⟩ := getConn_cases net l port <;> simp [h]

theorem getConnAndSend_trace :
    (l.getConnAndSend net port bytes).2.trace =
      l.trace ++ [.send port bytes (l.getConnAndSend net port bytes).1] := by
  simp [getConnAndSend]

/-- The link `l` becomes `l'` by sending what `S` allows, by handing to the apps what `A`
allows and by answering pings. -/
inductive Emits (net : Net) (S : UInt16 → List UInt8 → Prop)
    (A : AppPayload → Bool → AppPayload → Prop) (l : Link) : Link → Prop where
  | refl : Emits net S A l l
  | send {l' : Link} {port : UInt16} {bytes : List UInt8} (h : Emits net S A l l')
      (hs : S port bytes) : Emits net S A l (l'.getConnAndSend net port bytes).2
  | app {l' : Link} {given left : AppPayload} {accepted : Bool} (h : Emits net S A l l')
      (ha : A given accepted left) : Emits net S A l (l'.push (.app given accepted left))
  | reply {l' : Link} {res : RequestResult} {ok : Bool} (h : Emits net S A l l') :
      Emits net S A l (l'.push (.reply res ok))

end Link

def Event.Satisfies (S : UInt16 → List UInt8 → Prop) (A : AppPayload → Bool → AppPayload → Prop) :
    Event → Prop
  | .send port bytes _ => S port bytes
  | .app given accepted left => A given accepted left
  | .reply .. => True

namespace Link

variable {net : Net} {l l' : Link} {port : UInt16} {bytes : List UInt8}
  {S : UInt16 → List UInt8 → Prop} {A : AppPayload → Bool → AppPayload → Prop}

theorem Emits.sendAll {dests : List UInt16} (h : Emits net S A l l')
    (hs : ∀ port ∈ dests, S port bytes) : Emits net S A l (l'.sendAll net dests bytes) := by
  induction dests generalizing l' with
  | nil => exact h
  | cons port dests ih =>
    exact ih (h.send (hs port List.mem_cons_self)) fun p hp => hs p (List.mem_cons_of_mem _ hp)

theorem Emits.broadcast {env : Env} {dests : List UInt16} {p : NodePacket}
    (h : Emits env.net S A l l')
    (hs : ∀ port ∈ dests, ∀ q : NodePacket, q.appPayload = p.appPayload →
      S port ((createPacket .send .node q).sent env.stack)) :
    Emits env.net S A l (l'.broadcast env dests p) := by
  induction dests generalizing l' with
  | nil => exact h
  | cons port dests ih =>
    exact ih (h.send (hs port List.mem_cons_self _ rfl)) fun p hp =>
      hs p (List.mem_cons_of_mem _ hp)

/-- What holds of a link and is kept by every single emission holds after all of them. -/
theorem Emits.invariant {I : Link → Prop} (h : Emits net S A l l')
    (hsend : ∀ l port bytes, S port bytes → I l → I (l.getConnAndSend net port bytes).2)
    (hpush : ∀ l e, I l → I (l.push e)) (hl : I l) : I l' := by
  induction h with
  | refl => exact hl
  | send _ hs ih => exact hsend _ _ _ hs ih
  | app _ _ ih => exact hpush _ _ ih
  | reply _ ih => exact hpush _ _ ih

/-- The trace grows by what is allowed. -/
theorem Emits.trace (h : Emits net S A l l') :
    ∃ es, l'.trace = l.trace ++ es ∧ ∀ e ∈ es, e.Satisfies S A := by
  induction h with
  | refl => exact ⟨[], by simp, by simp⟩
  | send _ hs ih =>
    obtain ⟨es, htrace, hes⟩ := ih
    refine ⟨es ++ [_], by rw [getConnAndSend_trace, htrace, List.append_assoc], ?_⟩
    simpa [or_imp, forall_and] using ⟨hes, hs⟩
  | app _ ha ih =>
    obtain ⟨es, htrace, hes⟩ := ih
    refine ⟨es ++ [_], by rw [push_trace, htrace, List.append_assoc], ?_⟩
    simpa [or_imp, forall_and] using ⟨hes, ha⟩
  | reply _ ih =>
    obtain ⟨es, htrace, hes⟩ := ih
    refine ⟨es ++ [_], by rw [push_trace, htrace, List.append_assoc], ?_⟩
    simpa [or_imp, forall_and, Event.Satisfies] using hes

/-! ## Everything sent arrives -/

/-- As many slots are in use as ports out of `ports` are connected to, or fewer. -/
structure Roomy (ports : List UInt16) (l : Link) : Prop where
  slots : ∀ c ∈ l.connections, c.fd = -1 ∨ 0 < c.fd
  room : l.connections.countP Conn.isLive ≤ ports.countP l.isOpen

theorem roomy_initial (ports : List UInt16) : initial.Roomy ports where
  slots c hc := by simp_all [initial, Conn.free]
  room := by simp [initial, Conn.free, Conn.isLive, List.countP_replicate]

@[simp] theorem roomy_push {ports : List UInt16} (e : Event) :
    (l.push e).Roomy ports ↔ l.Roomy ports :=
  ⟨fun h => ⟨h.slots, h.room⟩, fun h => ⟨h.slots, h.room⟩⟩

theorem any_set {α : Type} {p : α → Bool} {xs : List α} {i : Nat} (hi : i < xs.length) (a : α)
    (h : p xs[i] = false) : (xs.set i a).any p = (xs.any p || p a) := by
  induction xs generalizing i with
  | nil => simp at hi
  | cons x xs ih =>
    cases i with
    | zero =>
      rw [List.getElem_cons_zero] at h
      simp [h, Bool.or_comm]
    | succ i =>
      rw [List.getElem_cons_succ] at h
      simp [ih (Nat.lt_of_succ_lt_succ hi) h, Bool.or_assoc]

theorem isOpen_setConn {i : Nat} {c : Conn} {fd : Int} (hi : l.connections[i]? = some c)
    (hc : c.fd = -1) (hfd : 0 < fd) (port p : UInt16) :
    (l.setConn i ⟨fd, port⟩).isOpen p = (l.isOpen p || port == p) := by
  obtain ⟨hlt, rfl⟩ := List.getElem?_eq_some_iff.mp hi
  have hdead : l.connections[i].isLive = false := by simp [Conn.isLive, hc]
  have hlive : (⟨fd, port⟩ : Conn).isLive = true := by simp [Conn.isLive, hfd]
  refine (any_set hlt _ (by simp [hdead])).trans ?_
  simp [isOpen, hlive]

theorem countP_setConn {i : Nat} {c : Conn} {fd : Int} (hi : l.connections[i]? = some c)
    (hc : c.fd = -1) (hfd : 0 < fd) :
    (l.setConn i ⟨fd, port⟩).connections.countP Conn.isLive =
      l.connections.countP Conn.isLive + 1 := by
  obtain ⟨hlt, rfl⟩ := List.getElem?_eq_some_iff.mp hi
  rw [setConn, List.countP_set hlt]
  simp [Conn.isLive, hc, hfd]

theorem countP_lt_countP {α : Type} {p q : α → Bool} {xs : List α} {a : α} (ha : a ∈ xs)
    (hpa : p a = false) (hqa : q a = true) (h : ∀ x, p x = true → q x = true) :
    xs.countP p < xs.countP q := by
  obtain ⟨as, bs, rfl⟩ := List.append_of_mem ha
  have has := List.countP_mono_left (l := as) fun x _ => h x
  have hbs := List.countP_mono_left (l := bs) fun x _ => h x
  simp only [List.countP_append, List.countP_cons, hpa, hqa]
  simp
  omega

/-- On a healthy network a node that only talks to as many ports as it has slots gets
everything through. -/
theorem getConnAndSend_healthy {ports : List UInt16} (hnet : net.Healthy)
    (hports : ports.length ≤ connectionsCount) (hl : l.Roomy ports) (hport : port ∈ ports)
    (bytes : List UInt8) :
    (l.getConnAndSend net port bytes).1 = true ∧
      (l.getConnAndSend net port bytes).2.trace = l.trace ++ [.send port bytes true] ∧
      (l.getConnAndSend net port bytes).2.Roomy ports := by
  obtain ⟨-, hfd, hsame⟩ | ⟨hclosed, i, c, hi, hc, hfd, heq⟩ | ⟨hclosed, -, hfull | hno⟩ :=
    getConn_cases net l port
  · simp [getConnAndSend, hnet.write, Int.le_of_lt hfd, hsame, hl]
  · have hopen := isOpen_setConn hi hc hfd port
    have hroomy : (l.setConn i ⟨net.connect l.trace.length port, port⟩).Roomy ports := by
      refine ⟨fun c' hc' => ?_, ?_⟩
      · obtain hmem | rfl := List.mem_or_eq_of_mem_set hc'
        · exact hl.slots c' hmem
        · exact .inr hfd
      · rw [countP_setConn hi hc hfd]
        refine Nat.lt_of_le_of_lt hl.room (countP_lt_countP hport hclosed ?_ fun p hp => ?_)
        · simp [hopen]
        · simp [hopen, hp]
    simp [getConnAndSend, heq, hnet.write, Int.le_of_lt hfd, hroomy]
  · have hlive : l.connections.countP Conn.isLive = l.connections.length :=
      List.countP_eq_length.mpr fun c hc => by
        have := (hl.slots c hc).resolve_left (hfull c hc)
        simpa [Conn.isLive] using this
    have hlt : ports.countP l.isOpen < ports.length :=
      Nat.lt_of_le_of_ne List.countP_le_length fun h => by
        have := List.countP_eq_length.mp h port hport
        simp [hclosed] at this
    have hroom := hl.room
    rw [hlive, l.length_connections] at hroom
    omega
  · have := hnet.connect l.trace.length port
    omega

theorem sendAll_healthy {ports : List UInt16} (hnet : net.Healthy)
    (hports : ports.length ≤ connectionsCount) (hl : l.Roomy ports) {dests : List UInt16}
    (hdests : ∀ port ∈ dests, port ∈ ports) (bytes : List UInt8) :
    (l.sendAll net dests bytes).trace = l.trace ++ dests.map (.send · bytes true) ∧
      (l.sendAll net dests bytes).Roomy ports := by
  induction dests generalizing l with
  | nil => simp [sendAll, hl]
  | cons port dests ih =>
    obtain ⟨-, htrace, hroomy⟩ :=
      getConnAndSend_healthy hnet hports hl (hdests port List.mem_cons_self) bytes
    obtain ⟨htrace', hroomy'⟩ := ih hroomy fun p hp => hdests p (List.mem_cons_of_mem _ hp)
    exact ⟨htrace'.trans (by simp [htrace]), hroomy'⟩

end Link

end MeshNet
