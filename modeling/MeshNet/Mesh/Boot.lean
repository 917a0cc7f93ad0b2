import MeshNet.Client.Arguments
import MeshNet.Mesh.Loops
import MeshNet.Server.Processes

/-!
# How the mesh starts

The server forks a process for every node and passes it its address as an argument. The process
tells the server its address and port under its process number, and is connected to. In whatever
order they do, the server ends up with a connection to every node.
-/

namespace MeshNet
open Library

/-! ## The address of a node on its command line -/

/-- `snprintf(buf, size, "%d", n)`: the text in the buffer, and how long it would be in full. -/
def snprintf (size : Nat) (n : UInt8) : List UInt8 × Nat :=
  let text := (Nat.toDigits 10 n.toNat).map fun c => UInt8.ofNat c.toNat
  (text.take (size - 1), text.length)

theorem forall_uint8 {P : UInt8 → Prop} (h : ∀ i < 256, P (UInt8.ofNat i)) (a : UInt8) : P a := by
  have ha := h a.toNat a.toNat_lt
  rwa [UInt8.ofNat_toNat] at ha

theorem snprintf_nonzero (n : UInt8) : 0 ∉ (snprintf 3 n).1 := by
  revert n
  exact forall_uint8 (by decide +kernel)

namespace Server

/-- `run_node`: the argument that the node is started with. The process dies where the text does
not fit. -/
def runNode (nodeAddr : UInt8) : Option CString :=
  if (snprintf 3 nodeAddr).2 > 3 then none
  else some ⟨(snprintf 3 nodeAddr).1, snprintf_nonzero nodeAddr⟩

end Server

/-- `argv[0]` of a node. -/
def meshNode : CString := ⟨ascii "mesh_node", by decide⟩

namespace Node

/-- `parse_args` of the node: its address and port. -/
def parseArgs (args : List CString) : Option (UInt8 × UInt16) :=
  match args with
  | [_, arg] => arg.number?.map fun addr => (addr, nodePort addr)
  | _ => none

/-- `update_node_state`: what a node tells the server when it has started. -/
def updateNodeState (getpid : Int32) (addr : UInt8) (port : UInt16) (buf : Nat → UInt8) :
    List UInt8 :=
  (createUpdate getpid .node ⟨getpid, port, addr⟩).sent buf

end Node

/-- What the process that is forked for an address makes of its arguments. -/
def Node.started (nodeAddr : UInt8) : Option (UInt8 × UInt16) :=
  (Server.runNode nodeAddr).bind fun arg => Node.parseArgs [meshNode, arg]

/-- What the process with the number `pid` that is forked for an address tells the server. -/
def bootFrame (pid : Int32) (nodeAddr : UInt8) (buf : Nat → UInt8) : Option (List UInt8) :=
  (Node.started nodeAddr).map fun r => Node.updateNodeState pid r.1 r.2 buf

/-- The buffer has room for two digits, which is enough for every address of the mesh; an address
with three digits loses the last. -/
theorem started_eq (addr : UInt8) :
    Node.started addr =
      some (if addr < 100 then (addr, nodePort addr) else (addr / 10, nodePort (addr / 10))) := by
  revert addr
  exact forall_uint8 (by decide +kernel)

theorem bootFrame_eq {addr : UInt8} (ha : InMesh addr) (pid : Int32) (buf : Nat → UInt8) :
    bootFrame pid addr buf = some (Node.updateNodeState pid addr (nodePort addr) buf) := by
  have hlt : addr < 100 := UInt8.lt_iff_toNat_lt.mpr ha
  rw [bootFrame, started_eq, if_pos hlt]
  rfl

/-- The server reads what the node has told it. -/
theorem update?_bootFrame {x : Arrived} {addr : UInt8} (ha : InMesh addr) {pid : Int32}
    {buf : Nat → UInt8} (hframe : bootFrame pid addr buf = some x.bytes) :
    x.update? = some ⟨pid, nodePort addr, addr⟩ := by
  rw [bootFrame_eq ha, Option.some_inj] at hframe
  have hreceive : receive x.env.heap x.env.stack x.bytes =
      some ⟨.known .node, ⟨.known .update, some (.update ⟨pid, nodePort addr, addr⟩), false⟩⟩ := by
    rw [← hframe]
    exact receive_sent (show formatCreate pid .update (some (.update ⟨pid, nodePort addr, addr⟩))
      .node = _ from rfl) (by decide) (fun a ha => by cases ha) (fun u hu => by cases hu; rfl) buf
  rw [Arrived.update?, hreceive]

/-! ## The children of the server -/

/-- The request leaves the children of the server as they are, whatever they are. -/
def Arrived.calm (x : Arrived) : Bool :=
  match receive x.env.heap x.env.stack x.bytes with
  | some ⟨.known .client, ⟨.known .killNode, _, _⟩⟩ => false
  | some ⟨.known .client, ⟨.known .reset, _, _⟩⟩ => false
  | some ⟨.known .client, ⟨.known .reviveNode, _, _⟩⟩ => false
  | some ⟨.known .node, ⟨.known .update, _, _⟩⟩ => false
  | _ => true

variable {env : ServerEnv} {tr : ServerTrace} {cs : List Child} {s : Server} {x : Arrived}
  {update : NodeUpdate}

theorem children_step_of_calm (hx : x.calm = true) : (s.step x).children = s.children := by
  unfold Arrived.calm at hx
  unfold Server.step Server.handleRequest
  cases hreceive : receive x.env.heap x.env.stack x.bytes with
  | none => rfl
  | some incoming =>
    rw [hreceive] at hx
    obtain ⟨sender, req, payload, died⟩ := incoming
    dsimp only
    unfold Server.listenerHandle
    split
    · unfold Server.handleClientRequest
      split <;> simp_all [Server.register]
    · unfold Server.handleNodeRequest
      split <;> simp_all
    · rfl

/-- Every process has a child of its own, which is given what the process tells. -/
theorem handleUpdateChild_map (hnodup : (cs.map Child.pid).Nodup) :
    (Server.handleUpdateChild env tr update cs).1 = cs.map fun c =>
      if c.pid = update.pid then
        ⟨c.pid, env.connect tr.length update.port, update.addr, update.port⟩
      else c := by
  induction cs with
  | nil => rfl
  | cons c cs ih =>
    obtain ⟨hc, hcs⟩ := List.nodup_cons.mp hnodup
    rw [Server.handleUpdateChild, List.map_cons]
    dsimp only
    by_cases hpid : c.pid = update.pid
    · have hrest : cs.map (fun c => if c.pid = update.pid then
          (⟨c.pid, env.connect tr.length update.port, update.addr, update.port⟩ : Child)
          else c) = cs := by
        refine (List.map_congr_left fun d hd => if_neg fun hd' => hc ?_).trans (List.map_id _)
        rw [hpid, ← hd']
        exact List.mem_map_of_mem hd
      rw [if_pos hpid, if_pos hpid, hrest]
    · rw [if_neg hpid, if_neg hpid, ih hcs]

/-- Only the children and the trace change. -/
theorem step_of_update (hx : x.update? = some update) :
    s.step x = { s with
      children := (Server.handleUpdateChild x.env s.trace update s.children).1
      trace := (Server.handleUpdateChild x.env s.trace update s.children).2 } := by
  unfold Arrived.update? at hx
  split at hx
  · rename_i heq
    cases hx
    simp only [Server.step, Server.handleRequest, heq]
    rfl
  · cases hx

/-! ## Until every node has told its address -/

/-- The process of node `a` has started and the server hears of it, whatever lies on the stack of
the process; the connection to it has the descriptor `fds a`. -/
structure Tells (pids : UInt8 → Int32) (fds : UInt8 ↪ Int) (a : UInt8) (x : Arrived) : Prop where
  inMesh : InMesh a
  frame : ∃ buf, bootFrame (pids a) a buf = some x.bytes
  connect : ∀ n, x.env.connect n (nodePort a) = fds a

/-- A frame tells one address. -/
theorem Tells.unique {pids : UInt8 → Int32} {fds : UInt8 ↪ Int} {a b : UInt8}
    (ha : Tells pids fds a x) (hb : Tells pids fds b x) : a = b := by
  obtain ⟨bufa, hframea⟩ := ha.frame
  obtain ⟨bufb, hframeb⟩ := hb.frame
  have heq := (update?_bootFrame ha.inMesh hframea).symm.trans
    (update?_bootFrame hb.inMesh hframeb)
  exact congrArg NodeUpdate.addr (Option.some.inj heq)

/-- What the server knows of a node before and after the node has told its address. -/
def bootChild (pids : UInt8 → Int32) (fds : UInt8 ↪ Int) (told : List UInt8) (a : UInt8) : Child :=
  if a ∈ told then ⟨pids a, fds a, a, nodePort a⟩ else ⟨pids a, -1, noAddr, 65535⟩

def bootChildren (pids : UInt8 → Int32) (fds : UInt8 ↪ Int) (told : List UInt8) : List Child :=
  (List.range nodeCount).map fun i => bootChild pids fds told (UInt8.ofNat i)

/-- The processes that `main` forks, one for each address. -/
def bootPids (pids : UInt8 → Int32) : List Int32 :=
  (List.range nodeCount).map fun i => pids (UInt8.ofNat i)

variable {pids : UInt8 → Int32} {fds : UInt8 ↪ Int} {told : List UInt8} {a : UInt8}
  {xs : List Arrived}

theorem bootChild_pid : (bootChild pids fds told a).pid = pids a := by
  unfold bootChild
  split <;> rfl

theorem children_start_bootPids (pids : UInt8 → Int32) (fds : UInt8 ↪ Int) :
    (Server.start (bootPids pids)).children = bootChildren pids fds [] := by
  simp only [Server.start, bootPids, bootChildren, List.map_map]
  rfl

theorem inMesh_ofNat {i : Nat} (hi : i ∈ List.range nodeCount) : InMesh (UInt8.ofNat i) := by
  have hlt := List.mem_range.mp hi
  simp only [InMesh, UInt8.toNat_ofNat', nodeCount, matrixSize] at *
  omega

theorem nodup_bootChildren (hpids : ∀ a b, InMesh a → InMesh b → pids a = pids b → a = b) :
    ((bootChildren pids fds told).map Child.pid).Nodup := by
  rw [bootChildren, List.map_map]
  refine List.Nodup.map_on (fun i hi j hj heq => ?_) List.nodup_range
  simp only [Function.comp_apply, bootChild_pid] at heq
  exact ofNat_inj_of_lt (List.mem_range.mp hi) (List.mem_range.mp hj)
    (hpids _ _ (inMesh_ofNat hi) (inMesh_ofNat hj) heq)

/-- A node that tells its address is connected to, and no other slot changes. -/
theorem children_step_of_tells (hpids : ∀ a b, InMesh a → InMesh b → pids a = pids b → a = b)
    (hs : s.children = bootChildren pids fds told) (hx : Tells pids fds a x) :
    (s.step x).children = bootChildren pids fds (a :: told) := by
  obtain ⟨buf, hframe⟩ := hx.frame
  have hchildren := congrArg Server.children (step_of_update (s := s)
    (update?_bootFrame hx.inMesh hframe))
  dsimp only at hchildren
  rw [hchildren, hs, handleUpdateChild_map (nodup_bootChildren hpids), bootChildren, List.map_map]
  refine List.map_congr_left fun i hi => ?_
  simp only [Function.comp_apply, bootChild_pid, hx.connect]
  by_cases hia : UInt8.ofNat i = a
  · rw [hia, if_pos rfl, bootChild, if_pos List.mem_cons_self]
  · have hne : pids (UInt8.ofNat i) ≠ pids a :=
      fun heq => hia (hpids _ _ (inMesh_ofNat hi) hx.inMesh heq)
    rw [if_neg hne]
    simp only [bootChild, List.mem_cons, hia, false_or]

/-- The slots are filled one by one, in the order in which the nodes tell their addresses. -/
theorem children_run_of_tells (hpids : ∀ a b, InMesh a → InMesh b → pids a = pids b → a = b)
    (hs : s.children = bootChildren pids fds told)
    (hall : ∀ x ∈ xs, x.calm = true ∨ ∃ a, Tells pids fds a x) :
    ∃ told', (run Server.step s xs).children = bootChildren pids fds told' ∧
      (∀ a ∈ told, a ∈ told') ∧ ∀ x ∈ xs, ∀ a, Tells pids fds a x → a ∈ told' := by
  induction xs generalizing s told with
  | nil => exact ⟨told, hs, fun _ ha => ha, nofun⟩
  | cons x xs ih =>
    have hrest := fun y hy => hall y (List.mem_cons_of_mem x hy)
    by_cases htells : ∃ a, Tells pids fds a x
    · obtain ⟨a, hx⟩ := htells
      obtain ⟨told', hrun, hold, hnew⟩ := ih (children_step_of_tells hpids hs hx) hrest
      refine ⟨told', hrun, fun b hb => hold b (List.mem_cons_of_mem a hb), fun y hy b hb => ?_⟩
      obtain rfl | hy := List.mem_cons.mp hy
      · exact hb.unique hx ▸ hold a List.mem_cons_self
      · exact hnew y hy b hb
    · have hcalm := (hall x List.mem_cons_self).resolve_right htells
      obtain ⟨told', hrun, hold, hnew⟩ := ih ((children_step_of_calm hcalm).trans hs) hrest
      refine ⟨told', hrun, hold, fun y hy b hb => ?_⟩
      obtain rfl | hy := List.mem_cons.mp hy
      · exact absurd ⟨b, hb⟩ htells
      · exact hnew y hy b hb

/-- Nothing else of the server changes while the nodes tell their addresses. -/
theorem run_of_tells (hall : ∀ x ∈ xs, ∃ a, Tells pids fds a x) :
    ∃ cs tr, run Server.step s xs = { s with children := cs, trace := tr } := by
  induction xs generalizing s with
  | nil => exact ⟨s.children, s.trace, rfl⟩
  | cons x xs ih =>
    obtain ⟨a, hx⟩ := hall x List.mem_cons_self
    obtain ⟨buf, hframe⟩ := hx.frame
    obtain ⟨cs, tr, hrun⟩ := ih (s := s.step x) fun y hy => hall y (List.mem_cons_of_mem x hy)
    refine ⟨cs, tr, ?_⟩
    rw [run_cons, hrun, step_of_update (update?_bootFrame hx.inMesh hframe)]

/-- In whatever order the processes that the server has forked come up, and whatever messages and
pings are asked for in between: once each has told its address as its `main` does, the server is
connected to every node as the mesh needs it; and if nothing else was asked for it is the server
that the mesh starts with. -/
theorem boot_run (pids : UInt8 → Int32) (fds : UInt8 ↪ Int)
    (hpids : ∀ a b, InMesh a → InMesh b → pids a = pids b → a = b) (xs : List Arrived)
    (hall : ∀ x ∈ xs, x.calm = true ∨ ∃ a, Tells pids fds a x)
    (htold : ∀ a, InMesh a → ∃ x ∈ xs, Tells pids fds a x) :
    (run Server.step (.start (bootPids pids)) xs).children =
        (Mesh.start pids fds 0).server.children ∧
      ((∀ x ∈ xs, ∃ a, Tells pids fds a x) →
        { run Server.step (.start (bootPids pids)) xs with trace := [] } =
          (Mesh.start pids fds 0).server) := by
  have hchildren : (run Server.step (.start (bootPids pids)) xs).children =
      (Mesh.start pids fds 0).server.children := by
    obtain ⟨told, hrun, -, hnew⟩ :=
      children_run_of_tells hpids (children_start_bootPids pids fds) hall
    rw [hrun]
    refine List.map_congr_left fun i hi => if_pos ?_
    obtain ⟨x, hx, htells⟩ := htold _ (inMesh_ofNat hi)
    exact hnew x hx _ htells
  refine ⟨hchildren, fun htells => ?_⟩
  obtain ⟨cs, tr, hrun⟩ := run_of_tells (s := .start (bootPids pids)) htells
  rw [hrun] at hchildren ⊢
  simp only [Mesh.start] at hchildren ⊢
  rw [← hchildren]
  rfl

/-! ### Nodes that come up in the order of their addresses -/

def orderedPids (a : UInt8) : Int32 := Int32.ofNat (a.toNat + 1)

theorem orderedPids_injective : Function.Injective orderedPids := by
  intro a b heq
  have hint := congrArg Int32.toInt heq
  have ha := a.toNat_lt
  have hb := b.toNat_lt
  rw [orderedPids, orderedPids, Int32.toInt_ofNat_of_lt (by omega),
    Int32.toInt_ofNat_of_lt (by omega)] at hint
  exact UInt8.toNat_inj.mp (by omega)

/-- The node tells its address and is connected to. -/
def nodeUp (a : UInt8) : Arrived :=
  ⟨7, { ServerEnv.quiet with connect := fun _ port => Mesh.descriptors (nodeAddr port) },
    Node.updateNodeState (orderedPids a) a (nodePort a) fun _ => 0⟩

theorem tells_nodeUp {a : UInt8} (ha : InMesh a) :
    Tells orderedPids Mesh.descriptors a (nodeUp a) where
  inMesh := ha
  frame := ⟨fun _ => 0, bootFrame_eq ha _ _⟩
  connect n := by simp only [nodeUp, nodeAddr_nodePort]

def pingFirst : Arrived := ⟨5, .quiet, (createAddr .ping .client (some 0)).bytes⟩

/-- A client has a node pinged while the nodes come up. -/
theorem boot_run_inOrder :
    (run Server.step (.start (bootPids orderedPids))
        (pingFirst :: (List.range nodeCount).map fun i => nodeUp (UInt8.ofNat i))).children =
      (Mesh.start orderedPids Mesh.descriptors 0).server.children := by
  refine (boot_run _ _ (fun a b ha hb heq => ?_) _ (fun x hx => ?_) fun a ha => ?_).1
  · exact orderedPids_injective heq
  · obtain rfl | hx := List.mem_cons.mp hx
    · exact .inl (by decide)
    · obtain ⟨i, hi, rfl⟩ := List.mem_map.mp hx
      exact .inr ⟨_, tells_nodeUp (inMesh_ofNat hi)⟩
  · refine ⟨nodeUp a, List.mem_cons_of_mem _ (List.mem_map.mpr ⟨a.toNat, ?_, ?_⟩), tells_nodeUp ha⟩
    · exact List.mem_range.mpr ha
    · rw [UInt8.ofNat_toNat]

end MeshNet
