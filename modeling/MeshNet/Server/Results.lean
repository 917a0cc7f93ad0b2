import MeshNet.Server.Processes

/-!
# Results of administrative requests

A ping, a kill, a revival and a reset are answered while they are handled. How many results the
client gets depends on the table of children and on which of the writes to them succeed, and what
a ping is answered with on the number of bytes that come back.
-/

namespace MeshNet
open Library

/-- The requests about nodes that a client waits for the result of. -/
inductive Admin where
  | ping (addr : UInt8)
  | kill (addr : UInt8)
  | revive (addr : UInt8)
  | reset
  deriving DecidableEq

def Incoming.admin? (incoming : Incoming) : Option Admin :=
  match incoming.sender, incoming.parsed.req, incoming.parsed.payload with
  | .known .client, .known .ping, some (.addr addr) => some (.ping addr)
  | .known .client, .known .killNode, some (.addr addr) => some (.kill addr)
  | .known .client, .known .reviveNode, some (.addr addr) => some (.revive addr)
  | .known .client, .known .reset, _ => some .reset
  | _, _, _ => none

def Arrived.admin? (x : Arrived) : Option Admin :=
  match receive x.env.heap x.env.stack x.bytes with
  | some incoming => incoming.admin?
  | none => none

/-- What gets through to a descriptor. -/
def ServerTrace.writtenTo (fd : Int) : ServerTrace → List (List UInt8)
  | [] => []
  | .write fd' bytes ok :: es =>
    if fd' = fd ∧ ok = true then bytes :: writtenTo fd es else writtenTo fd es
  | _ :: es => writtenTo fd es

namespace Server

/-- How many bytes `recv` says have come back, where a ping gets as far as that. -/
def answered (s : Server) (x : Arrived) (addr : UInt8) : Option Int :=
  match s.children.find? fun child => child.addr == addr with
  | none => none
  | some child =>
    if child.writeFd ≠ -1 ∧ x.env.write s.trace.length child.writeFd = true then
      some (x.env.recv (s.trace.length + 1)).1
    else none

/-- The result of a ping tells whether the node has answered. -/
def Truthful (s : Server) (x : Arrived) (res : RequestResult) : Admin → Prop
  | .ping addr =>
    (res = .ok → ∃ n, s.answered x addr = some n ∧ 0 < n) ∧
      ∀ n, s.answered x addr = some n → n ≤ 0 → res = .err
  | _ => True

/-- One result is written to the client while its request is handled, and a truthful one. -/
def AnswersOnce (s : Server) (x : Arrived) (a : Admin) : Prop :=
  ∃ res : RequestResult, s.Truthful x res a ∧
    ServerTrace.writtenTo x.fd ((s.step x).trace.drop s.trace.length) = [[res.toByte]]

/-- The bytes that came back are one result, or are counted as none. -/
def ReadsResult (answer : Int × (Nat → UInt8)) : Prop :=
  answer.1 % 256 = 0 ∨ answer.1 % 256 = 1 ∧ ∃ res : RequestResult, answer.2 0 = res.toByte

/-- There is a child to ping, and it cannot be written to or one result comes back; there is one
child to revive; all children that are connected to can be told to reset. -/
def Answerable (s : Server) (x : Arrived) : Admin → Prop
  | .ping addr => ∃ child, s.children.find? (fun child => child.addr == addr) = some child ∧
      (child.writeFd = -1 ∨ child.writeFd ≠ x.fd ∧
        (x.env.write s.trace.length child.writeFd = false ∨
          ReadsResult (x.env.recv (s.trace.length + 1))))
  | .kill _ => True
  | .revive addr => s.children.countP (fun child => child.addr = addr) = 1
  | .reset => ∀ i child, s.children[i]? = some child → child.writeFd ≠ -1 →
      child.writeFd ≠ x.fd ∧ x.env.write (s.trace.length + i) child.writeFd = true

variable {s : Server} {x : Arrived} {env : ServerEnv} {tr : ServerTrace} {children : List Child}
  {clientFd fd : Int} {addr : UInt8} {bytes : List UInt8} {res : RequestResult}

/-! ## What the handlers write to the client -/

theorem step_of_admin {a : Admin} (h : x.admin? = some a) :
    (s.step x).trace =
      match a with
      | .ping addr => (handlePing x.env s.trace s.children x.fd addr).2
      | .kill addr => (handleKill x.env s.trace s.children addr x.fd).2.2
      | .revive addr => (handleRevive x.env addr x.fd x.env.res s.trace s.children).2.2
      | .reset => (handleReset x.env s.trace s.children x.fd).2.2 := by
  unfold Arrived.admin? at h
  split at h
  · rename_i incoming hincoming
    unfold Incoming.admin? at h
    split at h <;> cases h
    all_goals simp only [step, handleRequest, listenerHandle, handleClientRequest, *]
  · cases h

theorem writtenTo_result {ok : Bool} (hok : ok = true) :
    ServerTrace.writtenTo fd [.write fd bytes ok] = [bytes] := if_pos ⟨rfl, hok⟩

/-- One message comes after what was written to another descriptor. -/
theorem writtenTo_pair {fd' : Int} {bytes' : List UInt8} {ok ok' : Bool} (hne : fd' ≠ fd)
    (hok : ok' = true) :
    ServerTrace.writtenTo fd [.write fd' bytes ok, .write fd bytes' ok'] = [bytes'] := by
  simp [ServerTrace.writtenTo, hne, hok]

theorem writtenTo_append (es es' : ServerTrace) :
    ServerTrace.writtenTo fd (es ++ es') =
      ServerTrace.writtenTo fd es ++ ServerTrace.writtenTo fd es' := by
  induction es with
  | nil => rfl
  | cons e es ih =>
    cases e with
    | write fd' bytes ok =>
      simp only [List.cons_append, ServerTrace.writtenTo, ih]
      split <;> rfl
    | _ => simpa only [List.cons_append, ServerTrace.writtenTo] using ih

theorem ofInt_eq_zero_iff (n : Int) : UInt8.ofInt n = 0 ↔ n % 256 = 0 := by
  rw [← UInt8.toNat_inj]
  simp only [UInt8.ofInt, UInt8.toNat_ofNat', UInt8.toNat_zero]
  omega

theorem toNat_ofInt (n : Int) : ((UInt8.ofInt n).toNat : Int) = n % 256 := by
  simp only [UInt8.ofInt, UInt8.toNat_ofNat']
  omega

/-- As many bytes as came back, squeezed into a byte, are one result. -/
theorem map_range_eq_iff (answer : Int × (Nat → UInt8)) (b : UInt8) :
    (List.range (UInt8.ofInt answer.1).toNat).map answer.2 = [b] ↔
      answer.1 % 256 = 1 ∧ answer.2 0 = b := by
  have hcount := toNat_ofInt answer.1
  constructor
  · intro h
    have hlen : (UInt8.ofInt answer.1).toNat = 1 := by simpa using congrArg List.length h
    rw [hlen] at h hcount
    exact ⟨hcount.symm, by simpa using h⟩
  · rintro ⟨hone, rfl⟩
    have hlen : (UInt8.ofInt answer.1).toNat = 1 := by omega
    rw [hlen]
    rfl

/-! ## A ping -/

section
variable (hx : x.admin? = some (.ping addr)) (hclient : ∀ n, x.env.write n x.fd = true)
  {child : Child}
  (hfind : s.children.find? (fun child => child.addr == addr) = some child)
include hx hclient hfind

theorem step_ping_of_killed (hkilled : child.writeFd = -1) :
    (s.step x).trace = s.trace ++ [.write x.fd [RequestResult.err.toByte] true] := by
  rw [step_of_admin hx]
  simp only [handlePing, hfind, if_pos hkilled, sendResToClient, ioWriteAll, hclient]

theorem step_ping_of_unsent (hfd : child.writeFd ≠ -1)
    (hsend : x.env.write s.trace.length child.writeFd = false) :
    (s.step x).trace =
      s.trace ++ [.write child.writeFd ((createAddr .ping .server none).sent x.env.stack) false,
        .write x.fd [RequestResult.err.toByte] true] := by
  rw [step_of_admin hx]
  simp only [handlePing, hfind, if_neg hfd, sendResToClient, ioWriteAll, hclient, hsend,
    Bool.not_false, if_true, List.append_assoc, List.singleton_append]

theorem step_ping_of_sent (hfd : child.writeFd ≠ -1)
    (hsend : x.env.write s.trace.length child.writeFd = true) :
    let answer := x.env.recv (s.trace.length + 1)
    (s.step x).trace =
      s.trace ++ [.write child.writeFd ((createAddr .ping .server none).sent x.env.stack) true,
        .write x.fd (if answer.1 % 256 = 0 then [RequestResult.err.toByte]
          else (List.range (UInt8.ofInt answer.1).toNat).map answer.2) true] := by
  rw [step_of_admin hx]
  simp only [handlePing, hfind, if_neg hfd, sendResToClient, ioWriteAll, hclient, hsend,
    Bool.not_true, Bool.false_eq_true, if_false, List.length_append, List.length_singleton,
    List.append_assoc, List.singleton_append]
  by_cases hzero : (x.env.recv (s.trace.length + 1)).1 % 256 = 0
  · have hnone : ¬ UInt8.ofInt (x.env.recv (s.trace.length + 1)).1 > 0 := by
      rw [(ofInt_eq_zero_iff _).mpr hzero]
      decide
    rw [if_neg hnone, if_pos hzero]
  · have hsome : UInt8.ofInt (x.env.recv (s.trace.length + 1)).1 > 0 :=
      UInt8.pos_iff_ne_zero.mpr (mt (ofInt_eq_zero_iff _).mp hzero)
    rw [if_pos hsome, if_neg hzero]

end

theorem answerable_ping_iff {child : Child}
    (hfind : s.children.find? (fun child => child.addr == addr) = some child) :
    s.Answerable x (.ping addr) ↔
      child.writeFd = -1 ∨ child.writeFd ≠ x.fd ∧
        (x.env.write s.trace.length child.writeFd = false ∨
          ReadsResult (x.env.recv (s.trace.length + 1))) := by
  constructor
  · rintro ⟨child', hfind', h⟩
    cases hfind.symm.trans hfind'
    exact h
  · exact fun h => ⟨child, hfind, h⟩

/-- What is written to the client after a ping has reached a node is one truthful result if and
only if it can be read as one. -/
theorem truthful_pinged_iff {answer : Int × (Nat → UInt8)} (hrecv : -1 ≤ answer.1) :
    (∃ res : RequestResult, ((res = .ok → 0 < answer.1) ∧ (answer.1 ≤ 0 → res = .err)) ∧
      (if answer.1 % 256 = 0 then [RequestResult.err.toByte]
        else (List.range (UInt8.ofInt answer.1).toNat).map answer.2) = [res.toByte]) ↔
      ReadsResult answer := by
  by_cases hzero : answer.1 % 256 = 0
  · exact iff_of_true ⟨.err, ⟨nofun, fun _ => rfl⟩, if_pos hzero⟩ (.inl hzero)
  · simp only [if_neg hzero, map_range_eq_iff]
    constructor
    · rintro ⟨res, -, hone, hres⟩
      exact .inr ⟨hone, res, hres⟩
    · rintro (hzero' | ⟨hone, res, hres⟩)
      · exact absurd hzero' hzero
      · -- an error would count as 255 bytes
        have hpos : 0 < answer.1 := by omega
        exact ⟨res, ⟨fun _ => hpos, fun hneg => absurd hpos (by omega)⟩, hone, hres⟩

/-- A ping has one result if and only if there is a node to ask and what comes back from it is one
result or counts as nothing. -/
theorem answersOnce_ping_iff (hx : x.admin? = some (.ping addr))
    (hclient : ∀ n, x.env.write n x.fd = true) (hrecv : ∀ n, -1 ≤ (x.env.recv n).1) :
    s.AnswersOnce x (.ping addr) ↔ s.Answerable x (.ping addr) := by
  cases hfind : s.children.find? (fun child => child.addr == addr) with
  | none =>
    have htrace : (s.step x).trace = s.trace := by
      rw [step_of_admin hx]
      simp only [handlePing, hfind]
    simp [AnswersOnce, Answerable, htrace, hfind, ServerTrace.writtenTo]
  | some child =>
    rw [answerable_ping_iff hfind]
    unfold AnswersOnce Truthful answered
    simp only [hfind]
    by_cases hkilled : child.writeFd = -1
    · rw [step_ping_of_killed hx hclient hfind hkilled, List.drop_left, writtenTo_result rfl]
      exact iff_of_true ⟨.err, ⟨nofun, fun _ _ _ => rfl⟩, rfl⟩ (.inl hkilled)
    cases hsend : x.env.write s.trace.length child.writeFd with
    | false =>
      have hown : child.writeFd ≠ x.fd := by
        intro hown
        rw [hown, hclient] at hsend
        cases hsend
      rw [step_ping_of_unsent hx hclient hfind hkilled hsend, List.drop_left,
        writtenTo_pair hown rfl]
      exact iff_of_true ⟨.err, ⟨nofun, fun _ _ _ => rfl⟩, rfl⟩ (.inr ⟨hown, .inl rfl⟩)
    | true =>
      rw [step_ping_of_sent hx hclient hfind hkilled hsend, List.drop_left]
      by_cases hown : child.writeFd = x.fd
      · have hopen : x.fd ≠ -1 := hown ▸ hkilled
        simp [ServerTrace.writtenTo, hown, hopen]
      · rw [writtenTo_pair hown rfl, ← truthful_pinged_iff (hrecv _)]
        simp [hkilled, hown]

/-! ## A kill, a revival and a reset -/

theorem answersOnce_kill (hx : x.admin? = some (.kill addr))
    (hclient : ∀ n, x.env.write n x.fd = true) : s.AnswersOnce x (.kill addr) := by
  unfold AnswersOnce
  rw [step_of_admin hx]
  simp only [handleKill, sendResToClient, ioWriteAll, hclient]
  obtain heq | ⟨i, child, -, heq⟩ := killNode_cases s.trace s.children addr
  · rw [heq, List.drop_left]
    exact ⟨.err, trivial, writtenTo_result rfl⟩
  · rw [heq, List.append_assoc, List.drop_left]
    exact ⟨.ok, trivial, by simp [ServerTrace.writtenTo]⟩

/-- A revival is answered for every child with the address. -/
theorem handleRevive_trace (addr : UInt8) (hclient : ∀ n, env.write n fd = true) (ok : Bool)
    (tr : ServerTrace) (children : List Child) :
    ∃ es, (handleRevive env addr fd ok tr children).2.2 = tr ++ es ∧
      ServerTrace.writtenTo fd es = (children.filter fun child => child.addr = addr).map
        fun child => [(if child.writeFd = -1 then RequestResult.ok else .err).toByte] := by
  induction children generalizing tr ok with
  | nil => exact ⟨[], (List.append_nil tr).symm, rfl⟩
  | cons child rest ih =>
    rw [handleRevive]
    by_cases haddr : child.addr = addr
    · simp only [if_pos haddr, sendResToClient, ioWriteAll, hclient]
      by_cases hkilled : child.writeFd = -1
      · simp only [if_pos hkilled, reviveNode]
        obtain ⟨es, htrace, hwritten⟩ := ih true (tr ++ [.fork child.addr (env.fork tr.length)] ++
          [.write fd [RequestResult.ok.toByte] true])
        refine ⟨_, htrace.trans (by rw [List.append_assoc, List.append_assoc]), ?_⟩
        simp [ServerTrace.writtenTo, haddr, hkilled, hwritten]
      · simp only [if_neg hkilled]
        obtain ⟨es, htrace, hwritten⟩ := ih true (tr ++ [.write fd [RequestResult.err.toByte] true])
        refine ⟨_, htrace.trans (List.append_assoc ..), ?_⟩
        simp [ServerTrace.writtenTo, haddr, hkilled, hwritten]
    · simp only [if_neg haddr]
      obtain ⟨es, htrace, hwritten⟩ := ih ok tr
      exact ⟨es, htrace, by simp [haddr, hwritten]⟩

theorem answersOnce_revive_iff (hx : x.admin? = some (.revive addr))
    (hclient : ∀ n, x.env.write n x.fd = true) :
    s.AnswersOnce x (.revive addr) ↔ s.Answerable x (.revive addr) := by
  obtain ⟨es, htrace, hwritten⟩ :=
    handleRevive_trace addr hclient x.env.res s.trace s.children
  unfold AnswersOnce Answerable
  rw [step_of_admin hx]
  simp only [htrace, List.drop_left, hwritten, List.countP_eq_length_filter]
  constructor
  · rintro ⟨res, -, hres⟩
    simpa using congrArg List.length hres
  · intro hone
    obtain ⟨child, hchild⟩ := List.length_eq_one_iff.mp hone
    exact ⟨_, trivial, by rw [hchild]; rfl⟩

theorem forall_getElem?_cons {α : Type} {P : Nat → α → Prop} {a : α} {as : List α} :
    (∀ i b, (a :: as)[i]? = some b → P i b) ↔
      P 0 a ∧ ∀ i b, as[i]? = some b → P (i + 1) b := by
  constructor
  · exact fun h => ⟨h 0 a rfl, fun i b hb => h (i + 1) b hb⟩
  · rintro ⟨hzero, hsucc⟩ (_ | i) b hb
    · cases hb
      exact hzero
    · exact hsucc i b hb

/-- Nothing is written to the client during the loop of a reset if and only if all children that are
connected to can be written to. -/
theorem resetNodes_trace (hclient : ∀ n, env.write n fd = true) (tr : ServerTrace)
    (children : List Child) :
    ∃ es, (resetNodes env fd tr children).2 = tr ++ es ∧
      (ServerTrace.writtenTo fd es = [] ↔ ∀ i child, children[i]? = some child →
        child.writeFd ≠ -1 → child.writeFd ≠ fd ∧
          env.write (tr.length + i) child.writeFd = true) := by
  induction children generalizing tr with
  | nil => exact ⟨[], (List.append_nil tr).symm, iff_of_true rfl nofun⟩
  | cons child rest ih =>
    rw [forall_getElem?_cons, resetNodes]
    by_cases hkilled : child.writeFd = -1
    · simp only [hkilled, ne_eq, not_true_eq_false, if_false, reviveNode]
      obtain ⟨es, htrace, hwritten⟩ := ih (tr ++ [.fork child.addr (env.fork tr.length)])
      refine ⟨_, htrace.trans (List.append_assoc ..), ?_⟩
      simpa [ServerTrace.writtenTo, Nat.add_assoc, Nat.add_comm 1] using hwritten
    · simp only [ne_eq, hkilled, not_false_eq_true, if_true, ioWriteAll, sendResToClient]
      by_cases hsend : env.write tr.length child.writeFd = true
      · simp only [hsend, if_true]
        obtain ⟨es, htrace, hwritten⟩ := ih (tr ++ [.write child.writeFd
          ((createAddr .reset .server none).sent env.stack) true])
        refine ⟨_, htrace.trans (List.append_assoc ..), ?_⟩
        by_cases hown : child.writeFd = fd
        · simp [ServerTrace.writtenTo, hown]
        · simpa [ServerTrace.writtenTo, hown, hsend, Nat.add_assoc, Nat.add_comm 1] using hwritten
      · -- the client is told of the failure
        simp only [hsend, hclient]
        obtain ⟨es, htrace, -⟩ := ih (tr ++ [.write child.writeFd
          ((createAddr .reset .server none).sent env.stack) false] ++
            [.write fd [RequestResult.unknown.toByte] true])
        refine ⟨_, htrace.trans (by rw [List.append_assoc, List.append_assoc]), iff_of_false ?_ ?_⟩
        · simp [ServerTrace.writtenTo]
        · exact fun h => hsend (h.1 trivial).2

theorem answersOnce_reset_iff (hx : x.admin? = some .reset)
    (hclient : ∀ n, x.env.write n x.fd = true) :
    s.AnswersOnce x .reset ↔ s.Answerable x .reset := by
  obtain ⟨es, htrace, hwritten⟩ := resetNodes_trace hclient s.trace s.children
  unfold AnswersOnce Answerable
  rw [step_of_admin hx]
  simp only [handleReset, htrace, sendResToClient, ioWriteAll, hclient, List.append_assoc,
    List.drop_left, writtenTo_append, writtenTo_result, ← hwritten]
  constructor
  · rintro ⟨res, -, hres⟩
    exact List.length_eq_zero_iff.mp (by simpa using congrArg List.length hres)
  · exact fun hnone => ⟨.ok, trivial, by rw [hnone]; rfl⟩

/-- An administrative request has one truthful result if and only if the table of children and what
comes of the writes to them and of a ping allow it. -/
theorem answersOnce_iff (s : Server) (x : Arrived) (a : Admin) (hx : x.admin? = some a)
    (hclient : ∀ n, x.env.write n x.fd = true) (hrecv : ∀ n, -1 ≤ (x.env.recv n).1) :
    s.AnswersOnce x a ↔ s.Answerable x a := by
  cases a with
  | ping addr => exact answersOnce_ping_iff hx hclient hrecv
  | kill addr => exact iff_of_true (answersOnce_kill hx hclient) trivial
  | revive addr => exact answersOnce_revive_iff hx hclient
  | reset => exact answersOnce_reset_iff hx hclient

/-- The server is connected to the node with address 0. -/
def connected : Server := (start forked).step (Fleet.reportOf 0)

/-- A client pings the node with address 0, and `n` bytes come back, all of them 0. -/
def pinging (n : Int) : Arrived :=
  ⟨5, { ServerEnv.quiet with recv := fun _ => (n, fun _ => 0) },
    (createAddr .ping .client (some 0)).bytes⟩

theorem answersOnce_iff_pinging :
    connected.AnswersOnce (pinging 1) (.ping 0) ↔ connected.Answerable (pinging 1) (.ping 0) :=
  answersOnce_iff connected (pinging 1) (.ping 0) (by decide +kernel) (fun _ => rfl)
    fun _ => (by decide : (-1 : Int) ≤ 1)

/-- Where `recv` fails, the client of a ping is sent 255 bytes. -/
theorem answersOnce_unreceived :
    ¬ ∀ (s : Server) (x : Arrived) (a : Admin), x.admin? = some a →
      (∀ n, x.env.write n x.fd = true) → (∀ n, -1 ≤ (x.env.recv n).1) → s.AnswersOnce x a := by
  intro hclaim
  obtain ⟨res, -, hwritten⟩ := hclaim connected (pinging (-1)) (.ping 0) (by decide +kernel)
    (fun _ => rfl) fun _ => le_rfl
  have hlengths := congrArg (List.map List.length) hwritten
  rw [List.map_singleton, List.length_singleton] at hlengths
  exact absurd hlengths (by decide +kernel)

end Server

end MeshNet
