import MeshNet.Server.Replies

/-!
# What the server owes a client

The slot of a message is kept until `maxClient` more messages are asked for. The first result that
comes until then is passed on to the client, and any other one is not.
-/

namespace MeshNet
open Library

/-- A result that the server has written to a client, and the message it is about. -/
structure Told where
  id : UInt16
  fd : Int
  bytes : List UInt8
  deriving DecidableEq

def NotifyType.result : NotifyType → RequestResult
  | .gotMessage => .ok
  | .fail => .err

theorem toByte_result_inj {type type' : NotifyType}
    (h : type.result.toByte = type'.result.toByte) : type = type' := by
  cases type <;> cases type' <;> first | rfl | cases h

namespace Clients

variable (t : Clients) (k : UInt16) (fd : Int)

/-- The slots hold numbers of `ids`, or were never taken. -/
def Numbered (ids : List UInt16) : Prop :=
  ∀ (i : Nat) (c : Client), t.clients[i]? = some c → c.appId ∈ ids ∨ c.fd = -1 ∧ t.next ≤ i

/-- The client of the message is looked up on `fd`, and `later` messages were asked for since. -/
def Waits (later : Nat) : Prop :=
  ∃ i c, t.slot k = some i ∧ t.clients[i]? = some c ∧ c.fd = fd ∧ t.age i = later

/-- At most one slot can give out a descriptor for the message, and it is `fd`. -/
def Sole : Prop :=
  ∃ i, ∀ (j : Nat) (c : Client),
    t.clients[j]? = some c → c.appId = k → c.fd ≠ -1 → j = i ∧ c.fd = fd

/-- No slot gives out a descriptor for the message. -/
def Spent : Prop :=
  ∀ (j : Nat) (c : Client), t.clients[j]? = some c → c.appId = k → c.fd = -1

variable {t k fd} {ids ids' : List UInt16} {id : UInt16} {fd' : Int} {later : Nat}

theorem numbered_init : init.Numbered ids := by
  intro i c hc
  rw [List.eq_of_mem_replicate (List.mem_of_getElem? hc)]
  exact .inr ⟨rfl, Nat.zero_le i⟩

theorem Numbered.setClient (h : t.Numbered ids) (hsub : ids ⊆ ids') (hid : id ∈ ids') :
    (t.setClient id fd').Numbered ids' := by
  intro i c hc
  have hi := lt_of_getElem? hc
  rw [getElem?_setClient] at hc
  split at hc
  · cases hc
    exact .inl hid
  · rename_i hne
    obtain hmem | ⟨hfd, hle⟩ := h i c hc
    · exact .inl (hsub hmem)
    · have hnext : (t.setClient id fd').next = t.next + 1 := by
        change (if t.next + 1 = maxClient then 0 else t.next + 1) = t.next + 1
        exact if_neg (by omega)
      exact .inr ⟨hfd, by omega⟩

/-- A search changes no number and takes no slot. -/
theorem exists_of_getClientFdById {j : Nat} {c : Client}
    (hc : (t.getClientFdById id).2.clients[j]? = some c) :
    ∃ c', t.clients[j]? = some c' ∧ c'.appId = c.appId ∧ (c.fd = c'.fd ∨ c.fd = -1) := by
  obtain ⟨i, _, -, -, heq⟩ | heq := t.getClientFdById_cases id <;> rw [heq] at hc
  · rw [getElem?_release_eq] at hc
    obtain ⟨c', hc', rfl⟩ := Option.map_eq_some_iff.mp hc
    refine ⟨c', hc', ?_⟩
    split
    · exact ⟨rfl, .inr rfl⟩
    · exact ⟨rfl, .inl rfl⟩
  · exact ⟨c, hc, rfl, .inl rfl⟩

theorem clientNum_getClientFdById : (t.getClientFdById id).2.clientNum = t.clientNum := by
  obtain ⟨i, _, -, -, heq⟩ | heq := t.getClientFdById_cases id <;> rw [heq]
  rfl

theorem Numbered.getClientFdById (h : t.Numbered ids) : (t.getClientFdById id).2.Numbered ids := by
  intro j c hc
  obtain ⟨c', hc', hid, hfd⟩ := exists_of_getClientFdById hc
  have hnext : (t.getClientFdById id).2.next = t.next := by
    rw [next, next, clientNum_getClientFdById]
  rw [hnext, ← hid]
  refine (h j c' hc').imp_right fun hfree => ⟨?_, hfree.2⟩
  obtain heq | heq := hfd
  · rw [heq, hfree.1]
  · exact heq

/-- A new number is found in no slot before the next. -/
theorem Numbered.first (h : t.Numbered ids) (hid : id ∉ ids) (i : Nat)
    (hslot : t.slot id = some i) : t.next ≤ i := by
  obtain ⟨⟨c, hc, rfl⟩, -⟩ := slot_eq_some_iff.mp hslot
  exact ((h i c hc).resolve_left hid).2

/-! ## The slot of a message -/

theorem waits_setClient_self (hfirst : ∀ i, t.slot k = some i → t.next ≤ i) :
    (t.setClient k fd).Waits k fd 0 :=
  ⟨t.next, ⟨fd, k⟩, slot_setClient_self hfirst, by rw [getElem?_setClient, if_pos rfl], rfl,
    by rw [age_setClient t.next_lt, if_pos rfl]⟩

theorem Waits.setClient (h : t.Waits k fd later) (hk : k ≠ id) (hlater : later + 1 < maxClient) :
    (t.setClient id fd').Waits k fd (later + 1) := by
  obtain ⟨i, c, hslot, hc, hfd, hage⟩ := h
  have hne : i ≠ t.next := by
    rintro rfl
    rw [age_next] at hage
    simp only [maxClient] at hlater
    omega
  exact ⟨i, c, slot_setClient_of_ne hk hne hslot, by rw [getElem?_setClient, if_neg hne.symm, hc],
    hfd, by rw [age_setClient (lt_of_getElem? hc), if_neg hne.symm, hage]⟩

theorem Waits.getClientFdById (h : t.Waits k fd later) : (t.getClientFdById k).1 = fd := by
  obtain ⟨i, c, hslot, hc, hfd, -⟩ := h
  rw [getClientFdById_of_slot hslot hc, hfd]

theorem Waits.getClientFdById_of_ne (h : t.Waits k fd later) (hk : id ≠ k) :
    (t.getClientFdById id).2.Waits k fd later := by
  obtain ⟨i, c, hslot, hc, hfd, hage⟩ := h
  obtain ⟨⟨c', hc', hck⟩, -⟩ := slot_eq_some_iff.mp hslot
  cases hc.symm.trans hc'
  have hage' : (t.getClientFdById id).2.age i = t.age i := by
    rw [age, age, clientNum_getClientFdById]
  refine ⟨i, c, ?_, ?_, hfd, hage'.trans hage⟩ <;>
    obtain ⟨j, c', hj, hid, heq⟩ | heq := t.getClientFdById_cases id <;> rw [heq]
  · exact slot_release.trans hslot
  · exact hslot
  · have hne : j ≠ i := by
      rintro rfl
      cases hj.symm.trans hc
      exact hk (hid.symm.trans hck)
    rw [getElem?_release_eq, hc, Option.map_some, if_neg hne]
  · exact hc

theorem sole_setClient_self (h : t.Numbered ids) (hk : k ∉ ids) : (t.setClient k fd).Sole k fd := by
  refine ⟨t.next, fun j c hc hid hfd => ?_⟩
  rw [getElem?_setClient] at hc
  split at hc
  · cases hc
    exact ⟨Eq.symm ‹_›, rfl⟩
  · exact absurd ((h j c hc).resolve_left (hid ▸ hk)).1 hfd

theorem Sole.setClient (h : t.Sole k fd) (hk : k ≠ id) : (t.setClient id fd').Sole k fd := by
  obtain ⟨i, hi⟩ := h
  refine ⟨i, fun j c hc hid hfd => ?_⟩
  rw [getElem?_setClient] at hc
  split at hc
  · cases hc
    exact absurd hid.symm hk
  · exact hi j c hc hid hfd

theorem Spent.setClient (h : t.Spent k) (hk : k ≠ id) : (t.setClient id fd').Spent k := by
  intro j c hc hid
  rw [getElem?_setClient] at hc
  split at hc
  · cases hc
    exact absurd hid.symm hk
  · exact h j c hc hid

theorem Sole.getClientFdById (h : t.Sole k fd) : (t.getClientFdById id).2.Sole k fd := by
  obtain ⟨i, hi⟩ := h
  refine ⟨i, fun j c hc hid hfd => ?_⟩
  obtain ⟨c', hc', hid', hfd'⟩ := exists_of_getClientFdById hc
  have hsame : c.fd = c'.fd := hfd'.resolve_right hfd
  obtain ⟨hj, hc'fd⟩ := hi j c' hc' (hid'.trans hid) (hsame ▸ hfd)
  exact ⟨hj, hsame.trans hc'fd⟩

theorem Spent.getClientFdById (h : t.Spent k) : (t.getClientFdById id).2.Spent k := by
  intro j c hc hid
  obtain ⟨c', hc', hid', hfd⟩ := exists_of_getClientFdById hc
  exact hfd.elim (fun heq => heq.trans (h j c' hc' (hid'.trans hid))) fun heq => heq

theorem Spent.fst_getClientFdById (h : t.Spent k) : (t.getClientFdById k).1 = -1 := by
  obtain ⟨i, c, hc, hid, heq⟩ | heq := t.getClientFdById_cases k <;> rw [heq]
  exact h i c hc hid

/-- A search finds the client of the message, who is not found again, or nobody. -/
theorem Sole.search (h : t.Sole k fd) :
    (t.getClientFdById k).1 = fd ∧ (t.getClientFdById k).2.Spent k ∨
      (t.getClientFdById k).1 = -1 := by
  obtain ⟨i, hi⟩ := h
  obtain ⟨j, c, hc, hid, heq⟩ | heq := t.getClientFdById_cases k <;> rw [heq]
  · by_cases hfd : c.fd = -1
    · exact .inr hfd
    · obtain ⟨rfl, hcfd⟩ := hi j c hc hid hfd
      refine .inl ⟨hcfd, fun l c' hc' hid' => ?_⟩
      rw [getElem?_release_eq] at hc'
      obtain ⟨c'', hc'', rfl⟩ := Option.map_eq_some_iff.mp hc'
      by_cases hl : j = l
      · rw [if_pos hl]
      · rw [if_neg hl] at hid' ⊢
        by_contra hne
        exact hl (hi l c'' hc'' hid' hne).1.symm
  · exact .inr rfl

end Clients

/-! ## What the client is told -/

/-- The results that the server writes because of a notification. -/
def Server.tells (s : Server) (x : Arrived) : List Told :=
  match x.tableEvent with
  | .notifies notify =>
    ((s.step x).trace.drop s.trace.length).filterMap fun
      | .write fd bytes _ => some ⟨notify.appMsgId, fd, bytes⟩
      | _ => none
  | _ => []

/-- The client that has asked for the message `k` on `fd` was told nothing yet, or one result. -/
inductive Owing (k : UInt16) (fd : Int) (later : Nat) (t : Clients) : List Told → Prop
  | waiting (hsole : t.Sole k fd) (hwaits : later < maxClient → t.Waits k fd later) :
      Owing k fd later t []
  | told (res : RequestResult) (hspent : t.Spent k) : Owing k fd later t [⟨k, fd, [res.toByte]⟩]

variable {s : Server} {x : Arrived} {t : Clients} {k id : UInt16} {fd fd' : Int} {later : Nat}
  {told : List Told} {type : NotifyType}

theorem tells_of_notifies (hx : x.tableEvent = .notifies ⟨.known type, id⟩) :
    s.tells x =
      if 0 < (s.clients.getClientFdById id).1 then
        [⟨id, (s.clients.getClientFdById id).1, [type.result.toByte]⟩]
      else [] := by
  simp only [Server.tells, hx]
  rw [Server.step_of_notifies hx]
  cases type <;> simp only [Server.handleNotify, Server.ioWriteAll] <;> split <;> simp [*] <;> rfl

theorem owing_setClient_self {ids : List UInt16} (h : t.Numbered ids) (hk : k ∉ ids) :
    Owing k fd 0 (t.setClient k fd) [] :=
  .waiting (Clients.sole_setClient_self h hk) fun _ => Clients.waits_setClient_self (h.first hk)

/-- Another message is asked for. -/
theorem Owing.setClient (h : Owing k fd later t told) (hk : k ≠ id) :
    Owing k fd (later + 1) (t.setClient id fd') told := by
  cases h with
  | waiting hsole hwaits =>
    exact .waiting (hsole.setClient hk) fun hlater => (hwaits (by omega)).setClient hk hlater
  | told res hspent => exact .told res (hspent.setClient hk)

/-- A notification makes the server tell the client of the message, unless it was told before. -/
theorem Owing.notified (h : Owing k fd later s.clients told) (hfd : 0 < fd)
    (hx : x.tableEvent = .notifies ⟨.known type, id⟩) :
    Owing k fd later (s.step x).clients (told ++ (s.tells x).filter fun r => r.id == k) ∧
      (∀ r ∈ (s.tells x).filter fun r => r.id == k, id = k ∧ r = ⟨k, fd, [type.result.toByte]⟩) ∧
      (id = k → later < maxClient → told ++ (s.tells x).filter (fun r => r.id == k) ≠ []) := by
  have htable : (s.step x).clients = (s.clients.getClientFdById id).2 := by
    have := congrArg Prod.fst (step_table s x)
    rwa [hx] at this
  rw [htable, tells_of_notifies hx]
  by_cases hid : id = k
  · subst hid
    cases h with
    | waiting hsole hwaits =>
      obtain ⟨hfound, hspent⟩ | hnone := hsole.search
      · rw [hfound, if_pos hfd]
        simpa using Owing.told type.result hspent
      · have hnot : ¬ later < maxClient := by
          intro hlater
          have := (hwaits hlater).getClientFdById
          omega
        rw [hnone, if_neg (by decide)]
        refine ⟨.waiting hsole.getClientFdById fun hlater => absurd hlater hnot, nofun, ?_⟩
        exact fun _ hlater => absurd hlater hnot
    | told res hspent =>
      rw [hspent.fst_getClientFdById, if_neg (by decide)]
      exact ⟨.told res hspent.getClientFdById, nofun, fun _ _ => List.cons_ne_nil _ _⟩
  · have hnone : (if 0 < (s.clients.getClientFdById id).1 then
        [(⟨id, (s.clients.getClientFdById id).1, [type.result.toByte]⟩ : Told)] else []).filter
          (fun r => r.id == k) = [] := by
      split <;> simp [hid]
    rw [hnone, List.append_nil]
    refine ⟨?_, nofun, fun heq => absurd heq hid⟩
    cases h with
    | waiting hsole hwaits =>
      exact .waiting hsole.getClientFdById fun hlater =>
        (hwaits hlater).getClientFdById_of_ne hid
    | told res hspent => exact .told res hspent.getClientFdById

end MeshNet
