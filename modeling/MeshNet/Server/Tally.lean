import MeshNet.Server.Answers
import MeshNet.Server.Replies

/-!
# As many results as messages

A descriptor is put into the table of clients for every message that is asked for on it, and taken
out for every result. Whatever else happens, and however often the numbers start again, no more
results are written to a descriptor than messages were asked for on it. Where a descriptor has been
given to a new connection, what was asked for on the old one counts as well.
-/

namespace MeshNet
open Library

namespace Clients

/-- The number of slots that hold the descriptor. -/
def holding (fd : Int) (t : Clients) : Nat := t.clients.countP fun c => c.fd == fd

end Clients

def ServerEvent.writesTo (fd : Int) : ServerEvent → Bool
  | .write fd' _ _ => fd' == fd
  | _ => false

def TableEvent.isNotifies : TableEvent → Bool
  | .notifies _ => true
  | _ => false

/-- A message is asked for on the descriptor. -/
def Arrived.asksOn (fd : Int) (x : Arrived) : Bool := x.fd == fd && x.tableEvent == .registers

namespace Server

/-- How often the server writes to the descriptor because of a notification. -/
def resultsTo (fd : Int) (s : Server) (x : Arrived) : Nat :=
  if x.tableEvent.isNotifies then
    ((s.step x).trace.drop s.trace.length).countP (ServerEvent.writesTo fd)
  else 0

/-- The results written to the descriptor over a run. -/
def results (fd : Int) : Server → List Arrived → Nat
  | _, [] => 0
  | s, x :: xs => s.resultsTo fd x + results fd (s.step x) xs

end Server

variable {t : Clients} {s : Server} {x : Arrived} {xs : List Arrived} {fd fd' : Int} {id : UInt16}
  {notify : Notify}

/-! ## What a request does to the slots of a descriptor -/

namespace Clients

theorem countP_modify_le {α : Type} (p : α → Bool) (l : List α) (i : Nat) (f : α → α)
    (hf : ∀ a, p (f a) = false) : (l.modify i f).countP p ≤ l.countP p := by
  induction l generalizing i with
  | nil => simp
  | cons a l ih =>
    cases i with
    | zero => simp [List.countP_cons, hf]
    | succ i =>
      rw [List.modify_succ_cons, List.countP_cons, List.countP_cons]
      exact Nat.add_le_add_right (ih i) _

/-- An element that is taken out is not counted any more. -/
theorem countP_modify_lt {α : Type} (p : α → Bool) (l : List α) (i : Nat) (f : α → α) {a : α}
    (hf : ∀ a, p (f a) = false) (ha : l[i]? = some a) (hpa : p a = true) :
    (l.modify i f).countP p + 1 = l.countP p := by
  induction l generalizing i with
  | nil => cases ha
  | cons b l ih =>
    cases i with
    | zero =>
      cases ha
      simp [hf, hpa]
    | succ i =>
      rw [List.modify_succ_cons, List.countP_cons, List.countP_cons, ← ih i ha]
      omega

theorem holding_setClient (t : Clients) (id : UInt16) (fd' fd : Int) :
    (t.setClient id fd').holding fd ≤ t.holding fd + if fd' = fd then 1 else 0 := by
  have hlt : t.next < t.clients.length := t.length_clients ▸ t.next_lt
  rw [holding, setClient, List.countP_set hlt, holding]
  by_cases hfd : fd' = fd <;> simp [hfd]

theorem holding_getClientFdById (hfd : 0 < fd) :
    (t.getClientFdById id).2.holding fd + (if (t.getClientFdById id).1 = fd then 1 else 0) ≤
      t.holding fd := by
  have hnone : ∀ c : Client, ({ c with fd := -1 } : Client).fd ≠ fd := fun _ => by
    change (-1 : Int) ≠ fd
    omega
  obtain ⟨i, c, hc, -, hfound⟩ | hfound := t.getClientFdById_cases id
  · rw [hfound]
    by_cases hcfd : c.fd = fd
    · rw [if_pos hcfd]
      exact (countP_modify_lt _ _ _ _ (fun c => by simpa using hnone c) hc (by simpa using hcfd)).le
    · rw [if_neg hcfd]
      exact countP_modify_le _ _ _ _ fun c => by simpa using hnone c
  · rw [hfound, if_neg (by omega)]
    exact Nat.le_refl _

end Clients

theorem countP_writesTo {es : ServerTrace} (hes : ∀ e ∈ es, ∃ bytes ok, e = .write fd' bytes ok) :
    es.countP (ServerEvent.writesTo fd) = if fd' = fd then es.length else 0 := by
  induction es with
  | nil => simp
  | cons e es ih =>
    obtain ⟨bytes, ok, rfl⟩ := hes e List.mem_cons_self
    rw [List.countP_cons, ih fun e he => hes e (List.mem_cons_of_mem _ he)]
    by_cases hfd : fd' = fd <;> simp [ServerEvent.writesTo, hfd]

/-- A notification makes the server write one result at most, to the descriptor it has looked
up. -/
theorem length_handleNotify (env : ServerEnv) (tr : ServerTrace) (clientFd : Int)
    (notify : Notify) :
    ∃ es, (Server.handleNotify env tr clientFd notify).2 = tr ++ es ∧ es.length ≤ 1 ∧
      ∀ e ∈ es, ∃ bytes ok, e = .write clientFd bytes ok := by
  unfold Server.handleNotify
  split
  · split
    · exact ⟨_, rfl, Nat.le_refl 1, fun e he => ⟨_, _, List.mem_singleton.mp he⟩⟩
    · exact ⟨[], (List.append_nil _).symm, Nat.zero_le 1, nofun⟩
  · split
    · exact ⟨_, rfl, Nat.le_refl 1, fun e he => ⟨_, _, List.mem_singleton.mp he⟩⟩
    · exact ⟨[], (List.append_nil _).symm, Nat.zero_le 1, nofun⟩
  · exact ⟨[], (List.append_nil _).symm, Nat.zero_le 1, nofun⟩

namespace Server

/-- What is told and what may still be told grows with the messages that are asked for. -/
theorem resultsTo_step (hfd : 0 < fd) (s : Server) (x : Arrived) :
    s.resultsTo fd x + (s.step x).clients.holding fd ≤
      s.clients.holding fd + if x.asksOn fd then 1 else 0 := by
  have htable : (s.step x).clients = (x.tableEvent.applyTo x.fd s.clients s.appMsgId).1 :=
    congrArg Prod.fst (step_table s x)
  rw [htable]
  cases hx : x.tableEvent with
  | registers =>
    have hset := Clients.holding_setClient s.clients s.appMsgId x.fd fd
    simpa [resultsTo, hx, TableEvent.isNotifies, TableEvent.applyTo, Arrived.asksOn] using hset
  | restarts => simp [resultsTo, hx, TableEvent.isNotifies, TableEvent.applyTo]
  | other => simp [resultsTo, hx, TableEvent.isNotifies, TableEvent.applyTo]
  | notifies notify =>
    obtain ⟨es, htrace, hlen, hes⟩ := length_handleNotify x.env s.trace
      (s.clients.getClientFdById notify.appMsgId).1 notify
    have hheld : (s.clients.getClientFdById notify.appMsgId).2.holding fd +
        (if (s.clients.getClientFdById notify.appMsgId).1 = fd then 1 else 0) ≤
          s.clients.holding fd := Clients.holding_getClientFdById hfd
    rw [resultsTo, hx, step_of_notifies hx, htrace, List.drop_left, countP_writesTo hes]
    simp only [TableEvent.isNotifies, if_true, TableEvent.applyTo]
    split at hheld
    · rw [if_pos ‹_›]
      omega
    · rw [if_neg ‹_›]
      omega

theorem results_run (hfd : 0 < fd) (s : Server) (xs : List Arrived) :
    s.results fd xs + (run step s xs).clients.holding fd ≤
      s.clients.holding fd + xs.countP (Arrived.asksOn fd) := by
  induction xs generalizing s with
  | nil => simp [results]
  | cons x xs ih =>
    have hstep := resultsTo_step hfd s x
    have hrest := ih (s.step x)
    rw [results, run_cons, List.countP_cons]
    omega

/-- No more results of messages are written to a descriptor than messages were asked for on it. -/
theorem results_le_messages (pids : List Int32) (xs : List Arrived) (fd : Int) (hfd : 0 < fd) :
    (start pids).results fd xs ≤ xs.countP (Arrived.asksOn fd) := by
  have hrun := results_run hfd (start pids) xs
  have hnone : (start pids).clients.holding fd = 0 := by
    refine List.countP_eq_zero.mpr fun c hc => ?_
    rw [List.eq_of_mem_replicate hc, beq_iff_eq]
    change (-1 : Int) ≠ fd
    omega
  omega

/-- Two results come for one message; the second is not passed on. -/
theorem results_le_messages_twice :
    (start []).results 5 [messageOn 5, resultOf 0, resultOf 0] ≤
      [messageOn 5, resultOf 0, resultOf 0].countP (Arrived.asksOn 5) :=
  results_le_messages [] [messageOn 5, resultOf 0, resultOf 0] 5 (by decide)

end Server

end MeshNet
