import MeshNet.Server.Replies

/-!
# The processes of the nodes

The server takes a child for dead when it is not connected to it, which is also the state of a
child that was forked and has not told its address yet. As long as only children are forked anew
that have reported and were sent `SIGTERM`, every address has one process.
-/

namespace MeshNet
open Library

/-- What the operating system knows: the address each process was started with, and whether it was
not yet sent `SIGTERM`. The number of a process is given once, since the server never waits for
its children. -/
structure Processes where
  startedAs : Int32 → Option UInt8
  running : Int32 → Bool

/-- The number `-1` is that of all processes, and what a failed `fork` returns. -/
def Processes.observe (p : Processes) : ServerEvent → Processes
  | .fork addr pid =>
    if 0 < pid then
      ⟨Function.update p.startedAs pid (some addr), Function.update p.running pid true⟩
    else p
  | .kill pid =>
    if pid = -1 then { p with running := fun _ => false }
    else { p with running := Function.update p.running pid false }
  | _ => p

/-- A new process has a number of its own. -/
def Processes.Fresh (p : Processes) (e : ServerEvent) : Prop :=
  ∀ addr pid, e = .fork addr pid → pid = -1 ∨ 0 < pid ∧ p.startedAs pid = none

instance (p : Processes) : (e : ServerEvent) → Decidable (p.Fresh e)
  | .fork addr pid => decidable_of_iff (pid = -1 ∨ 0 < pid ∧ p.startedAs pid = none)
      ⟨fun h _ _ heq => by cases heq; exact h, fun h => h addr pid rfl⟩
  | .write .. | .close .. | .connect .. | .kill .. => isTrue nofun

/-- What a node tells when it has started. -/
def Arrived.update? (x : Arrived) : Option NodeUpdate :=
  match receive x.env.heap x.env.stack x.bytes with
  | some ⟨.known .node, ⟨.known .update, some (.update update), _⟩⟩ => some update
  | _ => none

/-- The request makes the server fork the child anew. -/
def Arrived.revives (x : Arrived) (child : Child) : Bool :=
  match receive x.env.heap x.env.stack x.bytes with
  | some ⟨.known .client, ⟨.known .reset, _, _⟩⟩ => child.writeFd == -1
  | some ⟨.known .client, ⟨.known .reviveNode, some (.addr addr), _⟩⟩ =>
    child.addr == addr && child.writeFd == -1
  | _ => false

/-- The server with the processes it has forked, and which of them have been heard of. -/
structure Fleet where
  server : Server
  processes : Processes
  reported : Int32 → Bool

namespace Fleet

/-- The processes with the numbers `pids` were started with the addresses from 0 on. -/
def start (pids : List Int32) : Fleet where
  server := .start pids
  processes := ⟨fun pid => (pids.findIdx? (· == pid)).map UInt8.ofNat, fun pid => pids.contains pid⟩
  reported _ := false

def newEvents (w : Fleet) (x : Arrived) : ServerTrace :=
  (w.server.step x).trace.drop w.server.trace.length

def step (w : Fleet) (x : Arrived) : Fleet where
  server := w.server.step x
  processes := (w.newEvents x).foldl Processes.observe w.processes
  reported :=
    match x.update? with
    | some update => Function.update w.reported update.pid true
    | none => w.reported

/-- Processes report the address they were started with, and new ones get new numbers. -/
structure Possible (w : Fleet) (x : Arrived) : Prop where
  updates : ∀ update ∈ x.update?, w.processes.startedAs update.pid = some update.addr
  forks : Steps Processes.observe Processes.Fresh w.processes (w.newEvents x)

/-- Only children that have reported and were sent `SIGTERM` are forked anew. -/
def Due (w : Fleet) (x : Arrived) : Prop :=
  ∀ child ∈ w.server.children, x.revives child = true →
    child.addr ≠ noAddr ∧ w.processes.running child.pid = false

instance (w : Fleet) (x : Arrived) : Decidable (w.Possible x) :=
  decidable_of_iff ((∀ update ∈ x.update?, w.processes.startedAs update.pid = some update.addr) ∧
    Steps Processes.observe Processes.Fresh w.processes (w.newEvents x))
    ⟨fun h => ⟨h.1, h.2⟩, fun h => ⟨h.updates, h.forks⟩⟩

instance (w : Fleet) (x : Arrived) : Decidable (w.Due x) :=
  inferInstanceAs (Decidable (∀ child ∈ w.server.children, x.revives child = true →
    child.addr ≠ noAddr ∧ w.processes.running child.pid = false))

/-- One process and one slot for every address, and the slot knows the process. -/
structure OneEach (w : Fleet) : Prop where
  running : ∀ p q, w.processes.running p = true → w.processes.running q = true →
    w.processes.startedAs p = w.processes.startedAs q → p = q
  slots : ∀ (i j : Nat) (c c' : Child), w.server.children[i]? = some c →
    w.server.children[j]? = some c' → c.addr = c'.addr → i = j
  pid : ∀ p, ∀ c ∈ w.server.children, w.processes.running p = true →
    w.processes.startedAs p = some c.addr → c.pid = p

end Fleet

/-! ## What a request does to the children -/

/-- Nothing happens to processes. -/
def Quiet (es : ServerTrace) : Prop := ∀ e ∈ es, ∀ p : Processes, p.observe e = p

/-- Of the children some that meet `R` are forked anew, one after the other. -/
inductive Revives (R : Child → Prop) : List Child → ServerTrace → List Child → Prop
  | nil : Revives R [] [] []
  | keep (c : Child) {rest rest' : List Child} {es es' : ServerTrace} (hes : Quiet es)
      (h : Revives R rest es' rest') : Revives R (c :: rest) (es ++ es') (c :: rest')
  | fork {c : Child} (hR : R c) (pid : Int32) {rest rest' : List Child} {es es' : ServerTrace}
      (hes : Quiet es) (h : Revives R rest es' rest') :
      Revives R (c :: rest) (.fork c.addr pid :: (es ++ es')) ({ c with pid := pid } :: rest')

variable {env : ServerEnv} {R : Child → Prop} {cs cs' rest done : List Child}
  {tr es es' : ServerTrace} {clientFd fd : Int} {bytes : List UInt8} {addr : UInt8} {res : Bool}

theorem quiet_nil : Quiet [] := nofun

theorem quiet_write (fd : Int) (bytes : List UInt8) (ok : Bool) : Quiet [.write fd bytes ok] := by
  intro e he
  cases List.mem_singleton.mp he
  exact fun _ => rfl

theorem Quiet.append (h : Quiet es) (h' : Quiet es') : Quiet (es ++ es') := by
  intro e he
  obtain he | he := List.mem_append.mp he
  · exact h e he
  · exact h' e he

theorem Quiet.foldl (h : Quiet es) (p : Processes) : es.foldl Processes.observe p = p := by
  induction es with
  | nil => rfl
  | cons e es ih =>
    rw [List.foldl_cons, h e List.mem_cons_self]
    exact ih fun e' he' => h e' (List.mem_cons_of_mem _ he')

theorem revives_refl (cs : List Child) : Revives R cs [] cs := by
  induction cs with
  | nil => exact .nil
  | cons c cs ih => exact .keep c quiet_nil ih

/-- A child that is connected is told, and its client, where that fails. -/
theorem resetNodes_connected (env : ServerEnv) {c : Child} (hfd : c.writeFd ≠ -1) (clientFd : Int)
    (tr : ServerTrace) (rest : List Child) :
    ∃ es, Quiet es ∧ Server.resetNodes env clientFd tr (c :: rest) =
      (c :: (Server.resetNodes env clientFd (tr ++ es) rest).1,
        (Server.resetNodes env clientFd (tr ++ es) rest).2) := by
  have htold : ∀ bytes, ∃ es, Quiet es ∧
      (if (Server.ioWriteAll env tr c.writeFd bytes).1 = true then
        (Server.ioWriteAll env tr c.writeFd bytes).2
      else (Server.sendResToClient env (Server.ioWriteAll env tr c.writeFd bytes).2 clientFd
        .unknown).2) = tr ++ es := by
    intro bytes
    split
    · exact ⟨_, quiet_write _ _ _, rfl⟩
    · exact ⟨_, (quiet_write _ _ _).append (quiet_write _ _ _), List.append_assoc ..⟩
  obtain ⟨es, hquiet, htrace⟩ := htold ((createAddr .reset .server none).sent env.stack)
  refine ⟨es, hquiet, ?_⟩
  simp only [Server.resetNodes, ne_eq, hfd, not_false_eq_true, if_true, htrace]

theorem revives_resetNodes (env : ServerEnv) (clientFd : Int) (tr : ServerTrace) (cs : List Child) :
    ∃ es, (Server.resetNodes env clientFd tr cs).2 = tr ++ es ∧
      Revives (·.writeFd = -1) cs es (Server.resetNodes env clientFd tr cs).1 := by
  induction cs generalizing tr with
  | nil => exact ⟨[], (List.append_nil _).symm, .nil⟩
  | cons c rest ih =>
    by_cases hfd : c.writeFd = -1
    · obtain ⟨es, htrace, hrevives⟩ := ih (tr ++ [.fork c.addr (env.fork tr.length)])
      have hreset : Server.resetNodes env clientFd tr (c :: rest) =
          ({ c with pid := env.fork tr.length } :: (Server.resetNodes env clientFd
            (tr ++ [.fork c.addr (env.fork tr.length)]) rest).1,
          (Server.resetNodes env clientFd
            (tr ++ [.fork c.addr (env.fork tr.length)]) rest).2) := by
        simp [Server.resetNodes, Server.reviveNode, hfd]
      rw [hreset, htrace]
      exact ⟨_, List.append_assoc .., .fork hfd _ quiet_nil hrevives⟩
    · obtain ⟨es₀, hquiet, hreset⟩ := resetNodes_connected env hfd clientFd tr rest
      obtain ⟨es, htrace, hrevives⟩ := ih (tr ++ es₀)
      rw [hreset, htrace]
      exact ⟨_, List.append_assoc .., .keep c hquiet hrevives⟩

theorem revives_handleRevive (env : ServerEnv) (addr : UInt8) (clientFd : Int) (res : Bool)
    (tr : ServerTrace) (cs : List Child) :
    ∃ es, (Server.handleRevive env addr clientFd res tr cs).2.2 = tr ++ es ∧
      Revives (fun c => c.addr = addr ∧ c.writeFd = -1) cs es
        (Server.handleRevive env addr clientFd res tr cs).2.1 := by
  induction cs generalizing tr res with
  | nil => exact ⟨[], (List.append_nil _).symm, .nil⟩
  | cons c rest ih =>
    rw [Server.handleRevive]
    dsimp only
    by_cases haddr : c.addr = addr
    · rw [if_pos haddr]
      by_cases hfd : c.writeFd = -1
      · rw [if_pos hfd, if_pos hfd]
        let pid := env.fork tr.length
        let sent := Server.sendResToClient env (tr ++ [.fork c.addr pid]) clientFd .ok
        obtain ⟨es, htrace, hrevives⟩ := ih sent.1 sent.2
        have hes : sent.2 = tr ++ ServerEvent.fork c.addr pid :: [.write clientFd _ _] :=
          List.append_assoc ..
        refine ⟨_, htrace.trans (by rw [hes, List.append_assoc]), ?_⟩
        exact .fork ⟨haddr, hfd⟩ pid (quiet_write _ _ _) hrevives
      · rw [if_neg hfd, if_neg hfd]
        let sent := Server.sendResToClient env tr clientFd .err
        obtain ⟨es, htrace, hrevives⟩ := ih sent.1 sent.2
        exact ⟨_, htrace.trans (List.append_assoc ..), .keep c (quiet_write _ _ _) hrevives⟩
    · rw [if_neg haddr]
      obtain ⟨es, htrace, hrevives⟩ := ih res tr
      exact ⟨es, htrace, .keep c quiet_nil hrevives⟩

theorem Revives.imp {R' : Child → Prop} (h : Revives R cs es cs') (hR : ∀ c, R c → R' c) :
    Revives R' cs es cs' := by
  induction h with
  | nil => exact .nil
  | keep c hes _ ih => exact .keep c hes ih
  | fork hc pid hes _ ih => exact .fork (hR _ hc) pid hes ih

/-- Nothing happens to the children. -/
theorem Quiet.revives (h : Quiet es) (hcs : cs ≠ []) : Revives R cs es cs := by
  cases cs with
  | nil => exact absurd rfl hcs
  | cons c rest =>
    rw [← List.append_nil es]
    exact .keep c h (revives_refl rest)

/-- The first child with the address is sent `SIGTERM`. -/
theorem killNode_cases (tr : ServerTrace) (cs : List Child) (addr : UInt8) :
    Server.killNode tr cs addr = (false, cs, tr) ∨
      ∃ i c, cs[i]? = some c ∧ Server.killNode tr cs addr =
        (true, cs.set i { c with writeFd := -1 }, tr ++ [.close c.writeFd, .kill c.pid]) := by
  induction cs with
  | nil => exact .inl rfl
  | cons c rest ih =>
    rw [Server.killNode]
    split
    · exact .inr ⟨0, c, rfl, rfl⟩
    · obtain heq | ⟨i, c', hc', heq⟩ := ih
      · exact .inl (by rw [heq])
      · exact .inr ⟨i + 1, c', hc', by rw [heq]; rfl⟩

/-- The child whose process has reported is given its address. -/
theorem handleUpdateChild_cases (env : ServerEnv) (tr : ServerTrace) (update : NodeUpdate)
    (cs : List Child) :
    (∀ c ∈ cs, c.pid ≠ update.pid) ∧ Server.handleUpdateChild env tr update cs = (cs, tr) ∨
      ∃ i c fd, cs[i]? = some c ∧ c.pid = update.pid ∧ Server.handleUpdateChild env tr update cs =
        (cs.set i ⟨c.pid, fd, update.addr, update.port⟩, tr ++ [.connect update.port fd]) := by
  induction cs with
  | nil => exact .inl ⟨nofun, rfl⟩
  | cons c rest ih =>
    rw [Server.handleUpdateChild]
    by_cases hpid : c.pid = update.pid
    · rw [if_pos hpid]
      exact .inr ⟨0, c, _, rfl, hpid, rfl⟩
    · rw [if_neg hpid]
      obtain ⟨hnone, heq⟩ | ⟨i, c', fd, hc', hpid', heq⟩ := ih
      · exact .inl ⟨by simpa using ⟨hpid, hnone⟩, by rw [heq]⟩
      · exact .inr ⟨i + 1, c', fd, hc', hpid', by rw [heq]; rfl⟩

theorem quiet_sendToNodes (env : ServerEnv) (tr : ServerTrace) (cs : List Child) :
    ∃ es, (Server.sendToNodes env addr bytes tr cs).2 = tr ++ es ∧ Quiet es := by
  induction cs generalizing tr with
  | nil => exact ⟨[], (List.append_nil _).symm, quiet_nil⟩
  | cons c rest ih =>
    rw [Server.sendToNodes]
    dsimp only
    split_ifs
    · exact ⟨_, rfl, quiet_write _ _ _⟩
    · obtain ⟨es, htrace, hquiet⟩ := ih (Server.ioWriteAll env tr c.writeFd bytes).2
      exact ⟨_, htrace.trans (List.append_assoc ..), (quiet_write _ _ _).append hquiet⟩
    · exact ih tr

theorem quiet_handlePing (env : ServerEnv) (tr : ServerTrace) (cs : List Child) :
    ∃ es, (Server.handlePing env tr cs clientFd addr).2 = tr ++ es ∧ Quiet es := by
  unfold Server.handlePing
  dsimp only
  split
  · exact ⟨[], (List.append_nil _).symm, quiet_nil⟩
  · split_ifs
    · exact ⟨_, rfl, quiet_write _ _ _⟩
    all_goals exact ⟨_, List.append_assoc .., (quiet_write _ _ _).append (quiet_write _ _ _)⟩

theorem quiet_handleNotify (env : ServerEnv) (fd : Int) (tr : ServerTrace) (notify : Notify) :
    ∃ es, (Server.handleNotify env tr fd notify).2 = tr ++ es ∧ Quiet es := by
  unfold Server.handleNotify
  split
  · split
    · exact ⟨_, rfl, quiet_write _ _ _⟩
    · exact ⟨[], (List.append_nil _).symm, quiet_nil⟩
  · split
    · exact ⟨_, rfl, quiet_write _ _ _⟩
    · exact ⟨[], (List.append_nil _).symm, quiet_nil⟩
  · exact ⟨[], (List.append_nil _).symm, quiet_nil⟩

/-- What happens to the children while the server handles a request. -/
inductive Changes (x : Arrived) (cs : List Child) : ServerTrace → List Child → Prop
  | stays {es : ServerTrace} (hes : Quiet es) (hx : x.update? = none) : Changes x cs es cs
  | revives {es : ServerTrace} {cs' : List Child} (h : Revives (x.revives · = true) cs es cs')
      {es' : ServerTrace} (hes : Quiet es') (hx : x.update? = none) : Changes x cs (es ++ es') cs'
  | kills {i : Nat} {c : Child} (hc : cs[i]? = some c) {es : ServerTrace} (hes : Quiet es)
      (hx : x.update? = none) :
      Changes x cs (.close c.writeFd :: .kill c.pid :: es) (cs.set i { c with writeFd := -1 })
  | unheard {update : NodeUpdate} (hx : x.update? = some update)
      (h : ∀ c ∈ cs, c.pid ≠ update.pid) : Changes x cs [] cs
  | updates {update : NodeUpdate} (hx : x.update? = some update) {i : Nat} {c : Child}
      (hc : cs[i]? = some c) (hpid : c.pid = update.pid) (fd : Int) :
      Changes x cs [.connect update.port fd] (cs.set i ⟨c.pid, fd, update.addr, update.port⟩)

theorem changes_step (s : Server) (x : Arrived) :
    ∃ es, (s.step x).trace = s.trace ++ es ∧ Changes x s.children es (s.step x).children := by
  have hstays : ∀ {s' : Server} {es : ServerTrace}, s'.children = s.children →
      s'.trace = s.trace ++ es → Quiet es → x.update? = none →
        ∃ es, s'.trace = s.trace ++ es ∧ Changes x s.children es s'.children := by
    intro s' es hchildren htrace hquiet hnone
    exact ⟨es, htrace, hchildren ▸ .stays hquiet hnone⟩
  unfold Server.step Server.handleRequest
  cases hreceive : receive x.env.heap x.env.stack x.bytes with
  | none =>
    exact hstays rfl (List.append_nil _).symm quiet_nil (by simp [Arrived.update?, hreceive])
  | some incoming =>
    obtain ⟨sender, req, payload, died⟩ := incoming
    dsimp only
    unfold Server.listenerHandle
    split
    · rename_i hsender
      dsimp only at hsender
      subst hsender
      have hnone : x.update? = none := by simp [Arrived.update?, hreceive]
      unfold Server.handleClientRequest
      split
      · obtain ⟨es, htrace, hquiet⟩ := quiet_sendToNodes x.env s.trace s.children
        exact hstays rfl htrace hquiet hnone
      · obtain ⟨es, htrace, hquiet⟩ := quiet_handlePing x.env s.trace s.children
        exact hstays rfl htrace hquiet hnone
      · rename_i addr _ _
        dsimp only [Server.handleKill]
        obtain heq | ⟨i, c, hc, heq⟩ := killNode_cases s.trace s.children addr
        · rw [heq]
          exact ⟨_, rfl, .stays (quiet_write _ _ _) hnone⟩
        · rw [heq]
          exact ⟨_, List.append_assoc .., .kills hc (quiet_write _ _ _) hnone⟩
      · rename_i hreq
        dsimp only at hreq
        subst hreq
        obtain ⟨es, htrace, hrevives⟩ := revives_resetNodes x.env x.fd s.trace s.children
        dsimp only [Server.handleReset]
        refine ⟨_, (congrArg (· ++ _) htrace).trans (List.append_assoc ..),
          .revives (hrevives.imp fun c hc => ?_) (quiet_write _ _ _) hnone⟩
        simp [Arrived.revives, hreceive, hc]
      · rename_i addr hreq hpayload
        dsimp only at hreq hpayload
        subst hreq hpayload
        obtain ⟨es, htrace, hrevives⟩ :=
          revives_handleRevive x.env addr x.fd x.env.res s.trace s.children
        refine ⟨_, htrace.trans (congrArg _ (List.append_nil es).symm),
          .revives (hrevives.imp fun c hc => ?_) quiet_nil hnone⟩
        simp [Arrived.revives, hreceive, hc]
      · obtain ⟨es, htrace, hquiet⟩ := quiet_sendToNodes x.env s.trace s.children
        exact hstays rfl htrace hquiet hnone
      · obtain ⟨es, htrace, hquiet⟩ := quiet_sendToNodes x.env s.trace s.children
        exact hstays rfl htrace hquiet hnone
      · exact hstays rfl (List.append_nil _).symm quiet_nil hnone
    · rename_i hsender
      dsimp only at hsender
      subst hsender
      unfold Server.handleNodeRequest
      split
      · rename_i update hreq hpayload
        dsimp only at hreq hpayload
        subst hreq hpayload
        have hsome : x.update? = some update := by
          simp [Arrived.update?, hreceive]
        obtain ⟨hunheard, heq⟩ | ⟨i, c, fd, hc, hpid, heq⟩ :=
          handleUpdateChild_cases x.env s.trace update s.children
        · rw [heq]
          exact ⟨[], (List.append_nil _).symm, .unheard hsome hunheard⟩
        · rw [heq]
          exact ⟨_, rfl, .updates hsome hc hpid fd⟩
      · rename_i notify hreq hpayload
        dsimp only at hreq hpayload
        subst hreq hpayload
        obtain ⟨es, htrace, hquiet⟩ := quiet_handleNotify x.env
          (s.clients.getClientFdById notify.appMsgId).1 s.trace notify
        exact hstays rfl htrace hquiet (by simp [Arrived.update?, hreceive])
      · rename_i hupdate hnotify
        refine hstays rfl (List.append_nil _).symm quiet_nil ?_
        unfold Arrived.update?
        split
        · rename_i update died' heq
          cases hreceive.symm.trans heq
          exact (hupdate update rfl rfl).elim
        · rfl
    · refine hstays rfl (List.append_nil _).symm quiet_nil ?_
      unfold Arrived.update?
      split <;> simp_all

theorem Revives.exists_writeFd (h : Revives R cs es cs') {c : Child} (hc : c ∈ cs') :
    ∃ c' ∈ cs, c'.writeFd = c.writeFd := by
  induction h with
  | nil => cases hc
  | keep _ _ _ ih | fork _ _ _ _ ih =>
    obtain rfl | hc := List.mem_cons.mp hc
    · exact ⟨_, List.mem_cons_self, rfl⟩
    · obtain ⟨c', hc', hfd⟩ := ih hc
      exact ⟨c', List.mem_cons_of_mem _ hc', hfd⟩

/-- A child has a new descriptor only after a report, and then nothing was written. -/
theorem Changes.writeFd_cases {x : Arrived} (h : Changes x cs es cs') {c : Child} (hc : c ∈ cs') :
    c.writeFd = -1 ∨ (∃ c' ∈ cs, c'.writeFd = c.writeFd) ∨
      ∀ fd bytes ok, .write fd bytes ok ∉ es := by
  cases h with
  | stays => exact .inr (.inl ⟨c, hc, rfl⟩)
  | revives h => exact .inr (.inl (h.exists_writeFd hc))
  | unheard => exact .inr (.inl ⟨c, hc, rfl⟩)
  | updates => exact .inr (.inr fun fd bytes ok => by simp)
  | kills =>
    obtain hmem | rfl := List.mem_or_eq_of_mem_set hc
    · exact .inr (.inl ⟨c, hmem, rfl⟩)
    · exact .inl rfl

/-! ## The invariant -/

/-- Slot `i` is for the node with the address `i`: its process was started with this address, and
the slot carries it from the first report on. All running processes have slots. -/
structure Tracked (pids : List Int32) (cs : List Child) (p : Processes) (reported : Int32 → Bool) :
    Prop where
  length : cs.length ≤ nodeCount
  started : ∀ (i : Nat) (c : Child), cs[i]? = some c →
    c.pid = -1 ∨ p.startedAs c.pid = some (UInt8.ofNat i)
  addrs : ∀ (i : Nat) (c : Child), cs[i]? = some c →
    c.addr = UInt8.ofNat i ∨ c.addr = noAddr ∧ c.pid ∈ pids ∧ reported c.pid = false
  running : ∀ q, p.running q = true → p.startedAs q ≠ none ∧ ∃ c ∈ cs, c.pid = q
  positive : p.startedAs (-1) = none

variable {pids : List Int32} {p : Processes} {reported : Int32 → Bool} {c c' : Child} {i j : Nat}

theorem ofNat_inj_of_lt (hi : i < nodeCount) (hj : j < nodeCount)
    (h : UInt8.ofNat i = UInt8.ofNat j) : i = j := by
  have h' := congrArg UInt8.toNat h
  simp only [UInt8.toNat_ofNat', nodeCount, matrixSize] at h' hi hj
  omega

theorem getElem?_set_cases {d : Child} (h : (cs.set i d)[j]? = some c) :
    i = j ∧ c = d ∨ i ≠ j ∧ cs[j]? = some c := by
  rw [List.getElem?_set] at h
  split at h
  · split at h
    · exact .inl ⟨‹_›, (Option.some.inj h).symm⟩
    · cases h
  · exact .inr ⟨‹_›, h⟩

theorem mem_set_of_ne {d : Child} (hne : i ≠ j) (h : cs[j]? = some c) : c ∈ cs.set i d :=
  List.mem_of_getElem? (by rwa [List.getElem?_set_ne hne])

theorem mem_set_self {d : Child} (h : cs[i]? = some c) : d ∈ cs.set i d :=
  List.mem_set (List.getElem?_eq_some_iff.mp h).1 d

namespace Tracked

theorem lt (h : Tracked pids cs p reported) (hc : cs[i]? = some c) : i < nodeCount :=
  Nat.lt_of_lt_of_le (List.getElem?_eq_some_iff.mp hc).1 h.length

/-- A process has the address of its slot. -/
theorem startedAs_eq (h : Tracked pids cs p reported) (hc : cs[i]? = some c)
    (hstarted : p.startedAs c.pid ≠ none) : p.startedAs c.pid = some (UInt8.ofNat i) := by
  refine (h.started i c hc).resolve_left fun hneg => hstarted ?_
  rw [hneg, h.positive]

/-- Two slots have different processes. -/
theorem slot_inj (h : Tracked pids cs p reported) (hc : cs[i]? = some c) (hc' : cs[j]? = some c')
    (hstarted : p.startedAs c.pid ≠ none) (hpid : c.pid = c'.pid) : i = j := by
  have hi := h.startedAs_eq hc hstarted
  have hj := h.startedAs_eq hc' (hpid ▸ hstarted)
  rw [hpid] at hi
  exact ofNat_inj_of_lt (h.lt hc) (h.lt hc') (Option.some.inj (hi.symm.trans hj))

/-- A process of which the server knows the number is not a new one. -/
theorem ne_fresh (h : Tracked pids cs p reported) (hc : c ∈ cs) {pid : Int32}
    (hpos : 0 < pid) (hfresh : p.startedAs pid = none) : c.pid ≠ pid := by
  rintro rfl
  obtain ⟨i, hi⟩ := List.getElem?_of_mem hc
  obtain hneg | hstarted := h.started i c hi
  · rw [hneg] at hpos
    exact absurd hpos (by decide)
  · rw [hfresh] at hstarted
    cases hstarted

end Tracked

theorem observe_fork_failed (addr : UInt8) : p.observe (.fork addr (-1)) = p := rfl

theorem observe_fork {pid : Int32} (hpos : 0 < pid) (addr : UInt8) :
    p.observe (.fork addr pid) =
      ⟨Function.update p.startedAs pid (some addr), Function.update p.running pid true⟩ :=
  if_pos hpos

/-- A child that was killed is started anew with its address. -/
theorem tracked_fork (h : Tracked pids cs p reported) (hc : cs[i]? = some c)
    (haddr : c.addr ≠ noAddr) (hdead : p.running c.pid = false) {pid : Int32}
    (hfresh : p.Fresh (.fork c.addr pid)) :
    Tracked pids (cs.set i { c with pid := pid }) (p.observe (.fork c.addr pid)) reported := by
  have hnode : c.addr = UInt8.ofNat i := (h.addrs i c hc).resolve_right fun hnew => haddr hnew.1
  have hlength : (cs.set i { c with pid := pid }).length ≤ nodeCount := by
    rw [List.length_set]
    exact h.length
  have haddrs : ∀ j d, (cs.set i { c with pid := pid })[j]? = some d →
      d.addr = UInt8.ofNat j ∨ d.addr = noAddr ∧ d.pid ∈ pids ∧ reported d.pid = false := by
    intro j d hd
    obtain ⟨rfl, rfl⟩ | ⟨-, hd⟩ := getElem?_set_cases hd
    · exact .inl hnode
    · exact h.addrs j d hd
  have hothers : ∀ q, p.running q = true → ∃ d ∈ cs.set i { c with pid := pid }, d.pid = q := by
    intro q hq
    obtain ⟨-, d, hd, rfl⟩ := h.running q hq
    obtain ⟨j, hj⟩ := List.getElem?_of_mem hd
    have hne : i ≠ j := by
      rintro rfl
      cases hc.symm.trans hj
      rw [hdead] at hq
      cases hq
    exact ⟨d, mem_set_of_ne hne hj, rfl⟩
  obtain rfl | ⟨hpos, hnone⟩ := hfresh c.addr pid rfl
  · rw [observe_fork_failed]
    refine ⟨hlength, fun j d hd => ?_, haddrs, fun q hq => ⟨(h.running q hq).1, hothers q hq⟩,
      h.positive⟩
    obtain ⟨rfl, rfl⟩ | ⟨-, hd⟩ := getElem?_set_cases hd
    · exact .inl rfl
    · exact h.started j d hd
  · rw [observe_fork hpos]
    refine ⟨hlength, fun j d hd => ?_, haddrs, fun q hq => ?_, ?_⟩
    · obtain ⟨rfl, rfl⟩ | ⟨-, hd⟩ := getElem?_set_cases hd
      · exact .inr ((Function.update_self ..).trans (congrArg some hnode))
      · have hne := h.ne_fresh (List.mem_of_getElem? hd) hpos hnone
        exact (h.started j d hd).imp_right (Function.update_of_ne hne _ _).trans
    · by_cases heq : q = pid
      · subst heq
        exact ⟨by simp, _, mem_set_self hc, rfl⟩
      · replace hq := (Function.update_of_ne heq true p.running).symm.trans hq
        exact ⟨by simpa [Function.update_of_ne heq] using (h.running q hq).1, hothers q hq⟩
    · have hne : (-1 : Int32) ≠ pid := by
        rintro rfl
        exact absurd hpos (by decide)
      exact (Function.update_of_ne hne _ _).trans h.positive

/-- A child that is sent `SIGTERM` keeps its slot. -/
theorem tracked_kill (h : Tracked pids cs p reported) (hc : cs[i]? = some c) :
    Tracked pids (cs.set i { c with writeFd := -1 }) (p.observe (.kill c.pid)) reported := by
  have hstartedAs : (p.observe (.kill c.pid)).startedAs = p.startedAs := by
    rw [Processes.observe]
    split <;> rfl
  have hstill : ∀ q, (p.observe (.kill c.pid)).running q = true → p.running q = true := by
    intro q hq
    rw [Processes.observe] at hq
    split at hq
    · cases hq
    · by_cases heq : q = c.pid
      · subst heq
        exact absurd ((Function.update_self ..).symm.trans hq) (by decide)
      · exact (Function.update_of_ne heq false p.running).symm.trans hq
  refine ⟨by simpa using h.length, fun j d hd => ?_, fun j d hd => ?_, fun q hq => ?_, ?_⟩
  · rw [hstartedAs]
    obtain ⟨rfl, rfl⟩ | ⟨-, hd⟩ := getElem?_set_cases hd
    · exact h.started i c hc
    · exact h.started j d hd
  · obtain ⟨rfl, rfl⟩ | ⟨-, hd⟩ := getElem?_set_cases hd
    · exact h.addrs i c hc
    · exact h.addrs j d hd
  · rw [hstartedAs]
    obtain ⟨hstarted, d, hd, rfl⟩ := h.running q (hstill q hq)
    refine ⟨hstarted, ?_⟩
    obtain ⟨j, hj⟩ := List.getElem?_of_mem hd
    by_cases hij : i = j
    · subst hij
      cases hc.symm.trans hj
      exact ⟨_, mem_set_self hc, rfl⟩
    · exact ⟨d, mem_set_of_ne hij hj, rfl⟩
  · rw [hstartedAs]
    exact h.positive

/-- A child that reports is given the address of its slot. -/
theorem tracked_update (h : Tracked pids cs p reported) (hc : cs[i]? = some c)
    (haddr : p.startedAs c.pid = some addr) (fd : Int) (port : UInt16) :
    Tracked pids (cs.set i ⟨c.pid, fd, addr, port⟩) p (Function.update reported c.pid true) := by
  have hstarted : p.startedAs c.pid ≠ none := by simp [haddr]
  have hnode : addr = UInt8.ofNat i :=
    Option.some.inj (haddr.symm.trans (h.startedAs_eq hc hstarted))
  refine ⟨by simpa using h.length, fun j d hd => ?_, fun j d hd => ?_, fun q hq => ?_, h.positive⟩
  · obtain ⟨rfl, rfl⟩ | ⟨-, hd⟩ := getElem?_set_cases hd
    · exact h.started i c hc
    · exact h.started j d hd
  · obtain ⟨rfl, rfl⟩ | ⟨hij, hd⟩ := getElem?_set_cases hd
    · exact .inl hnode
    · have hne : d.pid ≠ c.pid := fun hpid => hij (h.slot_inj hc hd hstarted hpid.symm)
      rw [Function.update_of_ne hne]
      exact h.addrs j d hd
  · obtain ⟨hq, d, hd, rfl⟩ := h.running q hq
    refine ⟨hq, ?_⟩
    obtain ⟨j, hj⟩ := List.getElem?_of_mem hd
    by_cases hij : i = j
    · subst hij
      cases hc.symm.trans hj
      exact ⟨_, mem_set_self hc, rfl⟩
    · exact ⟨d, mem_set_of_ne hij hj, rfl⟩

/-- A report nobody waits for. -/
theorem tracked_unheard (h : Tracked pids cs p reported) {pid : Int32}
    (hunheard : ∀ c ∈ cs, c.pid ≠ pid) :
    Tracked pids cs p (Function.update reported pid true) := by
  refine ⟨h.length, h.started, fun i c hc => ?_, h.running, h.positive⟩
  rw [Function.update_of_ne (hunheard c (List.mem_of_getElem? hc))]
  exact h.addrs i c hc

/-- A fork tells nothing of the children that have not been come to yet. -/
theorem observe_fork_running (h : Tracked pids cs p reported) (hc : c ∈ cs) {pid : Int32}
    (hfresh : p.Fresh (.fork addr pid)) :
    (p.observe (.fork addr pid)).running c.pid = p.running c.pid := by
  obtain rfl | ⟨hpos, hnone⟩ := hfresh addr pid rfl
  · rfl
  · rw [observe_fork hpos]
    exact Function.update_of_ne (h.ne_fresh hc hpos hnone) _ _

theorem tracked_revives (hrevives : Revives R cs es cs') (h : Tracked pids (done ++ cs) p reported)
    (hR : ∀ c ∈ cs, R c → c.addr ≠ noAddr ∧ p.running c.pid = false)
    (hforks : Steps Processes.observe Processes.Fresh p es) :
    Tracked pids (done ++ cs') (es.foldl Processes.observe p) reported := by
  induction hrevives generalizing done p with
  | nil => exact h
  | @keep c rest rest' es es' hes _ ih =>
    rw [List.foldl_append, hes.foldl]
    rw [steps_append, run, hes.foldl] at hforks
    rw [List.append_cons] at h ⊢
    exact ih h (fun d hd => hR d (List.mem_cons_of_mem _ hd)) hforks.2
  | @fork c hc pid rest rest' es es' hes _ ih =>
    rw [List.foldl_cons, List.foldl_append, hes.foldl]
    rw [steps_cons, steps_append, run, hes.foldl] at hforks
    obtain ⟨hfresh, -, hforks⟩ := hforks
    obtain ⟨haddr, hdead⟩ := hR c List.mem_cons_self hc
    have hslot : (done ++ c :: rest)[done.length]? = some c := by simp
    have hforked := tracked_fork h hslot haddr hdead hfresh
    rw [List.set_append_right _ _ (Nat.le_refl _), Nat.sub_self, List.set_cons_zero,
      List.append_cons] at hforked
    rw [List.append_cons]
    refine ih hforked (fun d hd hRd => ?_) hforks
    obtain ⟨haddr', hdead'⟩ := hR d (List.mem_cons_of_mem _ hd) hRd
    refine ⟨haddr', (observe_fork_running h ?_ hfresh).trans hdead'⟩
    exact List.mem_append_right _ (List.mem_cons_of_mem _ hd)

namespace Fleet

variable {w : Fleet} {x : Arrived}

theorem newEvents_eq (h : (w.server.step x).trace = w.server.trace ++ es) : w.newEvents x = es := by
  rw [newEvents, h, List.drop_left]

theorem tracked_step (hpossible : w.Possible x) (hdue : w.Due x)
    (h : Tracked pids w.server.children w.processes w.reported) :
    Tracked pids (w.step x).server.children (w.step x).processes (w.step x).reported := by
  obtain ⟨es, htrace, hchanges⟩ := changes_step w.server x
  have hforks := hpossible.forks
  have hsame : x.update? = none → (w.step x).reported = w.reported := by
    intro hx
    rw [step, hx]
  have hheard : ∀ update, x.update? = some update →
      (w.step x).reported = Function.update w.reported update.pid true := by
    intro update hx
    rw [step, hx]
  rw [newEvents_eq htrace] at hforks
  change Tracked pids (w.server.step x).children
    ((w.newEvents x).foldl Processes.observe w.processes) _
  rw [newEvents_eq htrace]
  generalize (w.server.step x).children = cs' at hchanges
  cases hchanges with
  | stays hes hx =>
    rw [hsame hx, hes.foldl]
    exact h
  | @revives es cs' hrevives es' hes hx =>
    rw [hsame hx, List.foldl_append, hes.foldl]
    rw [steps_append] at hforks
    exact tracked_revives hrevives (show Tracked pids ([] ++ w.server.children) _ _ from h) hdue
      hforks.1
  | @kills i c hc es hes hx =>
    rw [hsame hx, List.foldl_cons, List.foldl_cons, hes.foldl]
    exact tracked_kill h hc
  | @unheard update hx hunheard =>
    rw [hheard update hx]
    exact tracked_unheard h hunheard
  | @updates update hx i c hc hpid fd =>
    rw [hheard update hx, ← hpid]
    refine tracked_update h hc ?_ fd update.port
    rw [hpid]
    exact hpossible.updates update hx

theorem tracked_start (hlength : pids.length = nodeCount) (hnodup : pids.Nodup)
    (hpos : ∀ pid ∈ pids, 0 < pid) :
    Tracked pids (start pids).server.children (start pids).processes (start pids).reported := by
  have hslot : ∀ (i : Nat) (c : Child), (pids.map fun pid => (⟨pid, -1, 255, 65535⟩ : Child))[i]? =
      some c → pids[i]? = some c.pid ∧ c.addr = noAddr := by
    intro i c hc
    rw [List.getElem?_map, Option.map_eq_some_iff] at hc
    obtain ⟨pid, hpid, rfl⟩ := hc
    exact ⟨hpid, rfl⟩
  have hfind : ∀ (i : Nat) (pid : Int32), pids[i]? = some pid →
      pids.findIdx? (· == pid) = some i := by
    intro i pid hpid
    obtain ⟨hi, rfl⟩ := List.getElem?_eq_some_iff.mp hpid
    refine List.findIdx?_eq_some_iff_getElem.mpr ⟨hi, by simp, fun j hj => ?_⟩
    simpa using fun heq => absurd ((hnodup.getElem_inj_iff).mp heq) (Nat.ne_of_lt hj)
  refine ⟨by simp [start, Server.start, hlength], fun i c hc => .inr ?_, fun i c hc => .inr ?_,
    fun q hq => ?_, ?_⟩
  · change (pids.findIdx? (· == c.pid)).map UInt8.ofNat = _
    rw [hfind i c.pid (hslot i c hc).1]
    rfl
  · obtain ⟨hpid, haddr⟩ := hslot i c hc
    exact ⟨haddr, List.mem_of_getElem? hpid, rfl⟩
  · have hmem : q ∈ pids := by simpa [start] using hq
    obtain ⟨i, hi⟩ := List.getElem?_of_mem hmem
    exact ⟨by simp [start, hfind i q hi], _, List.mem_map_of_mem hmem, rfl⟩
  · have hnone : pids.findIdx? (· == (-1 : Int32)) = none := by
      refine List.findIdx?_eq_none_iff.mpr fun pid hpid => ?_
      have := hpos pid hpid
      simp only [beq_eq_false_iff_ne, ne_eq]
      rintro rfl
      exact absurd this (by decide)
    simp [start, hnone]

/-- Slots of nodes that have all reported carry different addresses. -/
theorem oneEach_of_tracked (h : Tracked pids w.server.children w.processes w.reported)
    (hreported : ∀ pid ∈ pids, w.reported pid = true) : w.OneEach := by
  have haddrs : ∀ (i : Nat) (c : Child), w.server.children[i]? = some c →
      c.addr = UInt8.ofNat i := by
    intro i c hc
    refine (h.addrs i c hc).resolve_right fun ⟨_, hmem, hnot⟩ => ?_
    rw [hreported c.pid hmem] at hnot
    cases hnot
  have hrunning : ∀ q, w.processes.running q = true → ∃ (i : Nat) (c : Child),
      w.server.children[i]? = some c ∧ c.pid = q ∧
        w.processes.startedAs q = some (UInt8.ofNat i) := by
    intro q hq
    obtain ⟨hstarted, c, hc, rfl⟩ := h.running q hq
    obtain ⟨i, hi⟩ := List.getElem?_of_mem hc
    exact ⟨i, c, hi, rfl, h.startedAs_eq hi hstarted⟩
  refine ⟨fun p q hp hq heq => ?_, fun i j c c' hc hc' heq => ?_, fun p c hc hp hstarted => ?_⟩
  · obtain ⟨i, c, hc, rfl, hi⟩ := hrunning p hp
    obtain ⟨j, c', hc', rfl, hj⟩ := hrunning q hq
    rw [hi, hj] at heq
    have hij := ofNat_inj_of_lt (h.lt hc) (h.lt hc') (Option.some.inj heq)
    subst hij
    cases hc.symm.trans hc'
    rfl
  · rw [haddrs i c hc, haddrs j c' hc'] at heq
    exact ofNat_inj_of_lt (h.lt hc) (h.lt hc') heq
  · obtain ⟨i, hi⟩ := List.getElem?_of_mem hc
    obtain ⟨j, c', hc', rfl, hj⟩ := hrunning p hp
    rw [haddrs i c hi, hj] at hstarted
    have hij := ofNat_inj_of_lt (h.lt hc') (h.lt hi) (Option.some.inj hstarted)
    subst hij
    cases hi.symm.trans hc'
    rfl

/-- As long as no child is forked anew that still runs, every address has one process, once all
nodes have reported. -/
theorem oneEach_run (pids : List Int32) (hlength : pids.length = nodeCount) (hnodup : pids.Nodup)
    (hpos : ∀ pid ∈ pids, 0 < pid) (xs : List Arrived)
    (h : Steps step (fun w x => w.Possible x ∧ w.Due x) (start pids) xs)
    (hreported : ∀ pid ∈ pids, (run step (start pids) xs).reported pid = true) :
    (run step (start pids) xs).OneEach :=
  oneEach_of_tracked
    (h.invariant (fun w => Tracked pids w.server.children w.processes w.reported)
      (fun _ _ hx => tracked_step hx.1 hx.2) (tracked_start hlength hnodup hpos)) hreported

/-! ### A node that is revived twice -/

/-- The process of the node `i` reports. -/
def reportOf (i : Nat) : Arrived :=
  ⟨7, { ServerEnv.quiet with connect := fun _ _ => 8 },
    (createUpdate (Int32.ofNat (i + 1)) .node ⟨0, nodePort (UInt8.ofNat i), UInt8.ofNat i⟩).bytes⟩

/-- All nodes report, the first one first. -/
def reports : List Arrived := (List.range nodeCount).map reportOf

def killed (addr : UInt8) : Arrived :=
  ⟨5, .quiet, (createAddr .killNode .client (some addr)).bytes⟩

/-- A client has a node revived, and the new process has the number `pid`. -/
def revived (addr : UInt8) (pid : Int32) : Arrived :=
  ⟨5, { ServerEnv.quiet with fork := fun _ => pid },
    (createAddr .reviveNode .client (some addr)).bytes⟩

theorem forked_pos : ∀ pid ∈ forked, 0 < pid := by
  have hall : forked.all (fun pid => decide (0 < pid)) = true := by decide +kernel
  simpa only [List.all_eq_true, decide_eq_true_eq] using hall

theorem steps_revived :
    Steps step (fun w x => w.Possible x ∧ w.Due x) (start forked)
        (reports ++ [killed 5, revived 5 101]) ∧
      forked.all (run step (start forked) (reports ++ [killed 5, revived 5 101])).reported =
        true := by
  decide +kernel

theorem oneEach_run_revived :
    (run step (start forked) (reports ++ [killed 5, revived 5 101])).OneEach :=
  oneEach_run forked (by decide) (by decide +kernel) forked_pos _ steps_revived.1
    (List.all_eq_true.mp steps_revived.2)

theorem steps_revivedTwice :
    Steps step Possible (start forked) (reports ++ [killed 5, revived 5 101, revived 5 102]) ∧
      let w := run step (start forked) (reports ++ [killed 5, revived 5 101, revived 5 102])
      forked.all w.reported = true ∧ w.processes.running 101 = true ∧
        w.processes.running 102 = true ∧
        w.processes.startedAs 101 = w.processes.startedAs 102 := by
  decide +kernel

/-- Until the revived process has reported it can be revived once more. -/
theorem oneEach_revivedTwice :
    ¬ ∀ (pids : List Int32) (xs : List Arrived), pids.length = nodeCount → pids.Nodup →
      (∀ pid ∈ pids, 0 < pid) → Steps step Possible (start pids) xs →
      (∀ pid ∈ pids, (run step (start pids) xs).reported pid = true) →
      (run step (start pids) xs).OneEach := by
  intro hclaim
  obtain ⟨hpossible, hreported, hfirst, hsecond, hsame⟩ := steps_revivedTwice
  have hone := hclaim forked _ (by decide) (by decide +kernel) forked_pos hpossible
    (List.all_eq_true.mp hreported)
  exact absurd (hone.running 101 102 hfirst hsecond hsame) (by decide)

end Fleet

end MeshNet
