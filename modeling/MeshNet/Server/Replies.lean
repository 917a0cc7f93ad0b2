import MeshNet.Library.Run
import MeshNet.Server.Listener
import Mathlib.Data.Set.Card

/-!
# Which results reach their clients

The slots of the table of clients are taken in rotation, answered or not, and a reset starts the
numbering of the messages again but leaves the slots as they are. A client gets its result as long
as its slot is not taken before that, and no slot in front of it holds the same number.
-/

namespace MeshNet
open Library

/-- What arrives at the server on a connection. -/
structure Arrived where
  fd : Int
  env : ServerEnv
  bytes : List UInt8

/-- What a request means for the table of clients. -/
inductive TableEvent where
  | registers
  | restarts
  | notifies (notify : Notify)
  | other
  deriving DecidableEq

def Incoming.tableEvent (incoming : Incoming) : TableEvent :=
  match incoming.sender, incoming.parsed.req, incoming.parsed.payload with
  | .known .client, .known .send, some (.packet _)
  | .known .client, .known .broadcast, some (.packet _)
  | .known .client, .known .unicast, some (.packet _) => .registers
  | .known .client, .known .reset, _ => .restarts
  | .known .node, .known .notify, some (.notify notify) => .notifies notify
  | _, _, _ => .other

def Arrived.tableEvent (x : Arrived) : TableEvent :=
  match receive x.env.heap x.env.stack x.bytes with
  | some incoming => incoming.tableEvent
  | none => .other

/-- The server handles what has arrived. -/
def Server.step (s : Server) (x : Arrived) : Server := (s.handleRequest x.env x.fd x.bytes).2

/-- The table and the next number after a request that came on `fd`. -/
def TableEvent.applyTo (fd : Int) (t : Clients) (appMsgId : UInt16) :
    TableEvent → Clients × UInt16
  | registers => (t.setClient appMsgId fd, appMsgId + 1)
  | restarts => (t, 0)
  | notifies notify => ((t.getClientFdById notify.appMsgId).2, appMsgId)
  | other => (t, appMsgId)

/-- The server, and for every number that was given since the last reset the descriptor that its
client still has to be looked up by; there is none once the result has come. -/
structure Watched where
  server : Server
  expected : UInt16 → Option Int

namespace Watched

def start (pids : List Int32) : Watched := ⟨.start pids, fun _ => none⟩

def expectedAfter (w : Watched) (fd : Int) : TableEvent → UInt16 → Option Int
  | .registers => Function.update w.expected w.server.appMsgId (some fd)
  | .restarts => fun _ => none
  | .notifies notify =>
    Function.update w.expected notify.appMsgId ((w.expected notify.appMsgId).map fun _ => -1)
  | .other => w.expected

def step (w : Watched) (x : Arrived) : Watched :=
  ⟨w.server.step x, w.expectedAfter x.fd x.tableEvent⟩

/-- The request with this number was not answered yet. -/
def Awaits (w : Watched) (id : UInt16) : Prop := ∃ fd, fd ≠ -1 ∧ w.expected id = some fd

/-- A search for a number gives the descriptor that was stored for it, and nothing once the result
has come. -/
def Kept (w : Watched) : Prop :=
  ∀ id fd, w.expected id = some fd → (w.server.clients.getClientFdById id).1 = fd

end Watched

namespace Clients

/-- The slot in which a number is found. -/
def slot (t : Clients) (id : UInt16) : Option Nat := t.clients.findIdx? fun c => c.appId == id

end Clients

/-- The next slot in the rotation is not the one of a request without an answer, and no slot in
front of it holds the next number. -/
structure Watched.Room (w : Watched) : Prop where
  free : ∀ id, w.Awaits id → w.server.clients.slot id ≠ some w.server.clients.next
  first : ∀ i, w.server.clients.slot w.server.appMsgId = some i → w.server.clients.next ≤ i

/-! ## What a request does to the table -/

theorem step_table (s : Server) (x : Arrived) :
    ((s.step x).clients, (s.step x).appMsgId) =
      x.tableEvent.applyTo x.fd s.clients s.appMsgId := by
  unfold Server.step Server.handleRequest Arrived.tableEvent
  cases receive x.env.heap x.env.stack x.bytes with
  | none => rfl
  | some incoming =>
    dsimp only
    unfold Server.listenerHandle Incoming.tableEvent
    split
    · unfold Server.handleClientRequest
      split <;> simp_all [TableEvent.applyTo, Server.register]
    · unfold Server.handleNodeRequest
      split <;> simp_all [TableEvent.applyTo]
    · split <;> simp_all [TableEvent.applyTo]

namespace Clients

variable {t : Clients} {id k : UInt16} {fd : Int} {i : Nat}

theorem slot_eq_none_iff : t.slot id = none ↔ ∀ c ∈ t.clients, c.appId ≠ id := by
  simp [slot, List.findIdx?_eq_none_iff]

theorem slot_eq_some_iff : t.slot id = some i ↔
    (∃ c, t.clients[i]? = some c ∧ c.appId = id) ∧
      ∀ (j : Nat) (c : Client), j < i → t.clients[j]? = some c → c.appId ≠ id := by
  rw [slot, List.findIdx?_eq_some_iff_getElem]
  constructor
  · rintro ⟨hlt, hid, hmin⟩
    refine ⟨⟨_, List.getElem?_eq_getElem hlt, by simpa using hid⟩, fun j c hj hc => ?_⟩
    obtain ⟨hlt', rfl⟩ := List.getElem?_eq_some_iff.mp hc
    simpa using hmin j hj
  · rintro ⟨⟨c, hc, hid⟩, hmin⟩
    obtain ⟨hlt, rfl⟩ := List.getElem?_eq_some_iff.mp hc
    refine ⟨hlt, by simpa using hid, fun j hj => ?_⟩
    simpa using hmin j _ hj (List.getElem?_eq_getElem (hj.trans hlt))

theorem getClientFdById_of_slot {c : Client} (h : t.slot id = some i)
    (hc : t.clients[i]? = some c) : t.getClientFdById id = (c.fd, t.release i) := by
  have hfound : t.clients.findIdx? (fun c => c.appId == id) = some i := h
  simp [getClientFdById, hfound, hc]

theorem getClientFdById_of_no_slot (h : t.slot id = none) : t.getClientFdById id = (-1, t) := by
  have hfound : t.clients.findIdx? (fun c => c.appId == id) = none := h
  simp [getClientFdById, hfound]

theorem slot_eq : t.slot id = (t.clients.map Client.appId).findIdx? (· == id) := by
  rw [List.findIdx?_map]
  rfl

/-- A search leaves the numbers in their slots. -/
theorem slot_release : (t.release i).slot id = t.slot id := by
  have happIds : (t.release i).clients.map Client.appId = t.clients.map Client.appId := by
    refine List.ext_getElem? fun j => ?_
    simp only [release, List.getElem?_map, List.getElem?_modify]
    cases t.clients[j]? with
    | none => split <;> rfl
    | some c => split <;> rfl
  rw [slot_eq, slot_eq, happIds]

/-- A search takes the descriptor out of one slot. -/
theorem getElem?_release_eq (j : Nat) :
    (t.release i).clients[j]? =
      (t.clients[j]?).map fun c => if i = j then { c with fd := -1 } else c := by
  simp only [release, List.getElem?_modify]
  split <;> simp_all

theorem age_next : t.age t.next = 3 := by
  have := t.clientNum_le
  simp only [age, next, maxClient] at *
  split <;> omega

theorem age_lt_of_ne_next (hi : i < maxClient) (hne : t.next ≠ i) : t.age i < 3 := by
  have := t.clientNum_le
  simp only [age, next, maxClient] at *
  split at hne <;> omega

/-- The number of the request that took the slot last, where `count` requests were numbered from
0 on, and the number of a request that is still found. -/
structure Keeps (t : Clients) (count : Nat) (expected : UInt16 → Option Int) : Prop where
  numbered : ∀ i c, t.clients[i]? = some c → t.age i < count →
    c.appId = UInt16.ofNat count - 1 - UInt16.ofNat (t.age i)
  found : ∀ id fd, expected id = some fd →
    (∃ i c, t.slot id = some i ∧ t.clients[i]? = some c ∧ c.fd = fd ∧ t.age i < count) ∨
      fd = -1 ∧ t.slot id = none

variable {count : Nat} {expected : UInt16 → Option Int}

theorem keeps_of_none : t.Keeps 0 fun _ => none :=
  ⟨fun _ _ _ hage => absurd hage (Nat.not_lt_zero _), nofun⟩

theorem Keeps.getClientFdById (h : t.Keeps count expected) (hid : expected id = some fd) :
    (t.getClientFdById id).1 = fd := by
  obtain ⟨i, c, hslot, hc, hfd, -⟩ | ⟨hfd, hslot⟩ := h.found id fd hid
  · rw [getClientFdById_of_slot hslot hc, hfd]
  · rw [getClientFdById_of_no_slot hslot, hfd]

/-- A result takes the descriptor out of the slot. -/
theorem keeps_getClientFdById (h : t.Keeps count expected) :
    (t.getClientFdById k).2.Keeps count
      (Function.update expected k ((expected k).map fun _ => -1)) := by
  cases hslot : t.slot k with
  | none =>
    rw [getClientFdById_of_no_slot hslot]
    refine ⟨h.numbered, fun id fd hid => ?_⟩
    by_cases hk : id = k
    · subst hk
      obtain ⟨-, -, rfl⟩ : ∃ v, expected id = some v ∧ -1 = fd := by simpa using hid
      exact .inr ⟨rfl, hslot⟩
    · rw [Function.update_of_ne hk] at hid
      exact h.found id fd hid
  | some i =>
    obtain ⟨⟨c, hc, hck⟩, -⟩ := slot_eq_some_iff.mp hslot
    rw [getClientFdById_of_slot hslot hc]
    refine ⟨fun j c' hc' hage => ?_, fun id fd hid => ?_⟩
    · rw [getElem?_release_eq] at hc'
      obtain ⟨c'', hc'', rfl⟩ := Option.map_eq_some_iff.mp hc'
      have hnumber := h.numbered j c'' hc'' hage
      split <;> exact hnumber
    · by_cases hk : id = k
      · subst hk
        obtain ⟨fd', hid', rfl⟩ : ∃ v, expected id = some v ∧ -1 = fd := by simpa using hid
        obtain ⟨i', c', hslot', -, -, hage⟩ | ⟨-, hnone⟩ := h.found id fd' hid'
        · cases hslot.symm.trans hslot'
          exact .inl ⟨i, _, slot_release.trans hslot, by rw [getElem?_release_eq, hc]; rfl,
            by simp, hage⟩
        · cases hslot.symm.trans hnone
      · rw [Function.update_of_ne hk] at hid
        obtain ⟨i', c', hslot', hc', hfd, hage⟩ | ⟨hfd, hnone⟩ := h.found id fd hid
        · obtain ⟨⟨c'', hc'', hid''⟩, -⟩ := slot_eq_some_iff.mp hslot'
          have hne : i ≠ i' := by
            rintro rfl
            cases hc.symm.trans hc''
            exact hk (hid''.symm.trans hck)
          exact .inl ⟨i', c', slot_release.trans hslot', by
            rw [getElem?_release_eq, hc', Option.map_some, if_neg hne], hfd, hage⟩
        · exact .inr ⟨hfd, slot_release.trans hnone⟩

/-- The new request is found in its slot, where no other slot with its number stands in front. -/
theorem slot_setClient_self (hfirst : ∀ i, t.slot id = some i → t.next ≤ i) :
    (t.setClient id fd).slot id = some t.next := by
  refine slot_eq_some_iff.mpr ⟨⟨⟨fd, id⟩, by rw [getElem?_setClient, if_pos rfl], rfl⟩,
    fun j c hj hc hid => ?_⟩
  rw [getElem?_setClient, if_neg (Nat.ne_of_gt hj)] at hc
  cases hslot : t.slot id with
  | none => exact slot_eq_none_iff.mp hslot c (List.mem_of_getElem? hc) hid
  | some i =>
    have hlt : j < i := Nat.lt_of_lt_of_le hj (hfirst i hslot)
    exact (slot_eq_some_iff.mp hslot).2 j c hlt hc hid

theorem slot_setClient_of_lt (hslot : t.slot id = some i) (hi : i < t.next) :
    (t.setClient id fd).slot id = some i := by
  obtain ⟨⟨c, hc, hid⟩, hmin⟩ := slot_eq_some_iff.mp hslot
  refine slot_eq_some_iff.mpr ⟨⟨c, by rw [getElem?_setClient, if_neg (Nat.ne_of_gt hi), hc], hid⟩,
    fun j c' hj hc' => ?_⟩
  rw [getElem?_setClient, if_neg (Nat.ne_of_gt (hj.trans hi))] at hc'
  exact hmin j c' hj hc'

/-- The other requests are found where they were, unless their slot is taken. -/
theorem slot_setClient_of_ne (hid : id ≠ k) (hne : i ≠ t.next) (hslot : t.slot id = some i) :
    (t.setClient k fd).slot id = some i := by
  obtain ⟨⟨c, hc, hc'⟩, hmin⟩ := slot_eq_some_iff.mp hslot
  refine slot_eq_some_iff.mpr ⟨⟨c, by rw [getElem?_setClient, if_neg hne.symm, hc], hc'⟩,
    fun j c' hj hc'' => ?_⟩
  rw [getElem?_setClient] at hc''
  split at hc''
  · cases hc''
    exact hid.symm
  · exact hmin j c' hj hc''

theorem slot_setClient_eq_none (hid : id ≠ k) (h : ∀ i c, t.next ≠ i → t.clients[i]? = some c →
    c.appId ≠ id) : (t.setClient k fd).slot id = none := by
  refine slot_eq_none_iff.mpr fun c hc => ?_
  obtain ⟨i, hi⟩ := List.getElem?_of_mem hc
  rw [getElem?_setClient] at hi
  split at hi
  · cases hi
    exact hid.symm
  · exact h i c ‹_› hi

/-- A new request in a slot that nobody needs leaves all others to be found. -/
theorem keeps_setClient (h : t.Keeps count expected)
    (hfree : ∀ id fd, fd ≠ -1 → expected id = some fd → t.slot id ≠ some t.next)
    (hfirst : ∀ i, t.slot (UInt16.ofNat count) = some i → t.next ≤ i) :
    (t.setClient (UInt16.ofNat count) fd).Keeps (count + 1)
      (Function.update expected (UInt16.ofNat count) (some fd)) := by
  refine ⟨fun i c hc hage => ?_, fun id v hid => ?_⟩
  · have hlt := lt_of_getElem? hc
    rw [age_setClient hlt] at hage ⊢
    rw [getElem?_setClient] at hc
    split at hc
    · cases hc
      rw [if_pos ‹_›, UInt16.ofNat_add]
      grind
    · rw [if_neg ‹_›] at hage ⊢
      rw [h.numbered i c hc (by omega), UInt16.ofNat_add, UInt16.ofNat_add]
      grind
  · by_cases hk : id = UInt16.ofNat count
    · subst hk
      rw [Function.update_self] at hid
      cases hid
      exact .inl ⟨t.next, ⟨fd, _⟩, slot_setClient_self hfirst,
        by rw [getElem?_setClient, if_pos rfl], rfl,
        by rw [age_setClient t.next_lt, if_pos rfl]; omega⟩
    · rw [Function.update_of_ne hk] at hid
      obtain ⟨i, c, hslot, hc, hfd, hage⟩ | ⟨hfd, hnone⟩ := h.found id v hid
      · by_cases hnext : i = t.next
        · -- the slot of an answered request is taken
          have hv : v = -1 := by
            by_contra hv
            exact hfree id v hv hid (hnext ▸ hslot)
          refine .inr ⟨hv, slot_setClient_eq_none hk fun j c' hj hc' hsame => ?_⟩
          obtain ⟨⟨c'', hc'', hid''⟩, -⟩ := slot_eq_some_iff.mp hslot
          subst hnext
          rw [age_next] at hage
          have hold := h.numbered _ c'' hc'' (by rw [age_next]; exact hage)
          have hyoung := age_lt_of_ne_next (lt_of_getElem? hc') hj
          have hnew := h.numbered j c' hc' (by omega)
          rw [hid'', age_next] at hold
          rw [hsame, hold] at hnew
          obtain h0 | h1 | h2 : t.age j = 0 ∨ t.age j = 1 ∨ t.age j = 2 := by omega
          · rw [h0] at hnew; grind
          · rw [h1] at hnew; grind
          · rw [h2] at hnew; grind
        · have hlt := lt_of_getElem? hc
          exact .inl ⟨i, c, slot_setClient_of_ne hk hnext hslot,
            by rw [getElem?_setClient, if_neg (Ne.symm hnext), hc], hfd,
            by rw [age_setClient hlt, if_neg (Ne.symm hnext)]; omega⟩
      · exact .inr ⟨hfd, slot_setClient_eq_none hk fun j c' _ hc' =>
          slot_eq_none_iff.mp hnone c' (List.mem_of_getElem? hc')⟩

end Clients

/-! ## Requests that keep their slots -/

namespace Watched

variable {w : Watched} {x : Arrived}

/-- The table keeps what is expected of it. -/
def Sound (w : Watched) : Prop :=
  ∃ count, w.server.appMsgId = UInt16.ofNat count ∧ w.server.clients.Keeps count w.expected

theorem sound_start (pids : List Int32) : (start pids).Sound := ⟨0, rfl, Clients.keeps_of_none⟩

theorem Sound.kept (h : w.Sound) : w.Kept := by
  obtain ⟨count, -, hkeeps⟩ := h
  exact fun id fd hid => hkeeps.getClientFdById hid

theorem sound_step (hroom : x.tableEvent = .registers → w.Room) (h : w.Sound) :
    (w.step x).Sound := by
  obtain ⟨count, hcount, hkeeps⟩ := h
  obtain ⟨hclients, hid⟩ := Prod.mk.inj (step_table w.server x)
  unfold Sound step
  dsimp only
  rw [hclients, hid]
  cases hevent : x.tableEvent with
  | registers =>
    obtain ⟨hfree, hfirst⟩ := hroom hevent
    refine ⟨count + 1, (congrArg (· + 1) hcount).trans (UInt16.ofNat_add ..).symm, ?_⟩
    simp only [expectedAfter]
    rw [hcount] at hfirst ⊢
    exact Clients.keeps_setClient hkeeps (fun id fd hfd hid => hfree id ⟨fd, hfd, hid⟩) hfirst
  | restarts => exact ⟨0, rfl, Clients.keeps_of_none⟩
  | notifies notify => exact ⟨count, hcount, Clients.keeps_getClientFdById hkeeps⟩
  | other => exact ⟨count, hcount, hkeeps⟩

/-- As long as every new request finds room, every request can be looked up until its result has
come. -/
theorem kept_run (pids : List Int32) (xs : List Arrived)
    (hroom : Steps step (fun w x => x.tableEvent = .registers → w.Room) (start pids) xs) :
    (run step (start pids) xs).Kept :=
  (hroom.invariant Sound (fun _ _ hx => sound_step hx) (sound_start pids)).kept

end Watched

/-- The processes of the nodes. -/
def forked : List Int32 := (List.range nodeCount).map fun i => Int32.ofNat (i + 1)

/-- A client sends a message on descriptor `fd`. -/
def messageOn (fd : Int) : Arrived :=
  ⟨fd, .quiet, [17, 0, 0, 1, 2, 0, 0, 0, 0, 0, 0, 0, 0, 0, 0, 0, 0]⟩

/-- A node tells on descriptor 4 that the message `id` was accepted. -/
def resultOf (id : UInt16) : Arrived := ⟨4, .quiet, [6, 3, 1, 0] ++ bytes16 id⟩

namespace Watched

variable {w : Watched} {x : Arrived}

theorem kept_run_answered : (run step (start forked) [messageOn 5, resultOf 0]).Kept := by
  refine kept_run forked [messageOn 5, resultOf 0]
    ⟨fun _ => ⟨?_, fun i _ => Nat.zero_le i⟩, fun hregisters => ?_, trivial⟩
  · rintro id ⟨fd, -, hid⟩
    cases hid
  · exact absurd hregisters (by decide +kernel)

/-- No more requests are unanswered than there are slots. -/
def Few (w : Watched) : Prop := {id | w.Awaits id}.ncard ≤ maxClient

variable {ids : List UInt16}

theorem few_of_forall (h : ∀ id, w.Awaits id → id ∈ ids) (hlen : ids.length ≤ maxClient) :
    w.Few := by
  have hsub : {id | w.Awaits id} ⊆ ↑ids.toFinset := fun id hid => by simpa using h id hid
  calc {id | w.Awaits id}.ncard
    _ ≤ (↑ids.toFinset : Set UInt16).ncard := Set.ncard_le_ncard hsub (Finset.finite_toSet _)
    _ = ids.toFinset.card := Set.ncard_coe_finset _
    _ ≤ ids.length := List.toFinset_card_le ids
    _ ≤ maxClient := hlen

theorem awaits_registers (hx : x.tableEvent = .registers) (h : ∀ id, w.Awaits id → id ∈ ids) :
    ∀ id, (w.step x).Awaits id → id ∈ w.server.appMsgId :: ids := by
  rintro id ⟨fd, hfd, hid⟩
  simp only [step, hx, expectedAfter] at hid
  by_cases hsame : id = w.server.appMsgId
  · exact hsame ▸ List.mem_cons_self
  · rw [Function.update_of_ne hsame] at hid
    exact List.mem_cons_of_mem _ (h id ⟨fd, hfd, hid⟩)

theorem awaits_notifies {notify : Notify} (hx : x.tableEvent = .notifies notify)
    (h : ∀ id, w.Awaits id → id ∈ ids) :
    ∀ id, (w.step x).Awaits id → id ∈ ids.erase notify.appMsgId := by
  rintro id ⟨fd, hfd, hid⟩
  simp only [step, hx, expectedAfter] at hid
  by_cases hsame : id = notify.appMsgId
  · subst hsame
    obtain ⟨-, -, rfl⟩ : ∃ v, w.expected _ = some v ∧ -1 = fd := by simpa using hid
    exact absurd rfl hfd
  · rw [Function.update_of_ne hsame] at hid
    exact (List.mem_erase_of_ne hsame).mpr (h id ⟨fd, hfd, hid⟩)

/-- Four clients wait; the second gets its result, and the next request takes the slot of the
first. -/
def outOfOrder : List Arrived :=
  [messageOn 5, messageOn 6, messageOn 7, messageOn 8, resultOf 1, messageOn 9]

theorem kept_outOfOrder :
    ¬ ∀ (pids : List Int32) (xs : List Arrived), Steps step (fun w _ => w.Few) (start pids) xs →
      (run step (start pids) xs).Few → (run step (start pids) xs).Kept := by
  intro hclaim
  have h0 : ∀ id, (start forked).Awaits id → id ∈ [] := by
    rintro id ⟨fd, hfd, hid⟩
    cases hid
  have h1 := awaits_registers (x := messageOn 5) (by decide +kernel) h0
  have h2 := awaits_registers (x := messageOn 6) (by decide +kernel) h1
  have h3 := awaits_registers (x := messageOn 7) (by decide +kernel) h2
  have h4 := awaits_registers (x := messageOn 8) (by decide +kernel) h3
  have hresult : (resultOf 1).tableEvent = .notifies ⟨.known .gotMessage, 1⟩ := by decide +kernel
  have h5 := awaits_notifies hresult h4
  have h6 := awaits_registers (x := messageOn 9) (by decide +kernel) h5
  have hkept := hclaim forked outOfOrder
    ⟨few_of_forall h0 (by decide), few_of_forall h1 (by decide +kernel),
      few_of_forall h2 (by decide +kernel), few_of_forall h3 (by decide +kernel),
      few_of_forall h4 (by decide +kernel), few_of_forall h5 (by decide +kernel), trivial⟩
    (few_of_forall h6 (by decide +kernel))
  have hlookup := hkept 0 5 (by decide +kernel)
  exact absurd hlookup (by decide +kernel)

end Watched

/-! ## The newest request -/

namespace Server

/-- The notification `y` makes the server write to the descriptor `fd` and to no other. -/
def Answers (s : Server) (y : Arrived) (fd : Int) : Prop :=
  ∃ bytes ok, (s.step y).trace = s.trace ++ [.write fd bytes ok]

/-- A slot in front of the next one that holds the next number already holds `fd` as well. -/
def Unshadowed (s : Server) (fd : Int) : Prop :=
  ∀ i c, s.clients.slot s.appMsgId = some i → i < s.clients.next → s.clients.clients[i]? = some c →
    c.fd = fd

variable {s : Server} {x y : Arrived} {notify : Notify} {id : UInt16} {fd : Int}

theorem step_of_notifies (h : y.tableEvent = .notifies notify) :
    (s.step y).trace =
      (handleNotify y.env s.trace (s.clients.getClientFdById notify.appMsgId).1 notify).2 := by
  unfold Arrived.tableEvent at h
  split at h
  · rename_i incoming hincoming
    unfold Incoming.tableEvent at h
    split at h <;> cases h
    rename_i hsender hreq hpayload
    simp only [step, handleRequest, hincoming, listenerHandle, hsender, handleNodeRequest, hreq,
      hpayload]
  · cases h

/-- A result goes to the descriptor that was looked up, if there is one. -/
theorem handleNotify_of_known (env : ServerEnv) (tr : ServerTrace) (fd : Int) {t : NotifyType}
    (h : notify.type = .known t) :
    (∃ bytes ok, (handleNotify env tr fd notify).2 = tr ++ [.write fd bytes ok]) ∧ 0 < fd ∨
      (handleNotify env tr fd notify).2 = tr ∧ fd ≤ 0 := by
  unfold handleNotify
  rw [h]
  by_cases hfd : fd > 0
  · refine .inl ⟨?_, hfd⟩
    cases t with
    | gotMessage => exact ⟨_, _, congrArg Prod.snd (if_pos hfd)⟩
    | fail => exact ⟨_, _, congrArg Prod.snd (if_pos hfd)⟩
  · refine .inr ⟨?_, by omega⟩
    cases t with
    | gotMessage => exact congrArg Prod.snd (if_neg hfd)
    | fail => exact congrArg Prod.snd (if_neg hfd)

/-- The descriptor that is found under `id`. -/
def Finds (s : Server) (id : UInt16) (fd : Int) : Prop :=
  ∃ i c, s.clients.slot id = some i ∧ s.clients.clients[i]? = some c ∧ c.fd = fd

theorem Finds.unique {fd' : Int} (h : s.Finds id fd) (h' : s.Finds id fd') : fd = fd' := by
  obtain ⟨i, c, hslot, hc, rfl⟩ := h
  obtain ⟨i', c', hslot', hc', rfl⟩ := h'
  cases hslot.symm.trans hslot'
  cases hc.symm.trans hc'
  rfl

/-- The other requests that come in before the next message leave the descriptor where it is. -/
theorem finds_step (h : s.Finds id fd) (hregisters : y.tableEvent ≠ .registers)
    (hnotifies : ∀ n, y.tableEvent = .notifies n → n.appMsgId ≠ id) : (s.step y).Finds id fd := by
  have hclients := congrArg Prod.fst (step_table s y)
  dsimp only at hclients
  unfold Finds
  rw [hclients]
  cases hevent : y.tableEvent with
  | registers => exact absurd hevent hregisters
  | restarts => exact h
  | other => exact h
  | notifies n =>
    obtain ⟨i, c, hslot, hc, hfd⟩ := h
    dsimp only [TableEvent.applyTo]
    cases hother : s.clients.slot n.appMsgId with
    | none =>
      rw [Clients.getClientFdById_of_no_slot hother]
      exact ⟨i, c, hslot, hc, hfd⟩
    | some j =>
      obtain ⟨⟨c', hc', hid'⟩, -⟩ := Clients.slot_eq_some_iff.mp hother
      obtain ⟨⟨c'', hc'', hid''⟩, -⟩ := Clients.slot_eq_some_iff.mp hslot
      have hne : j ≠ i := by
        rintro rfl
        cases hc'.symm.trans hc''
        exact hnotifies n hevent (hid'.symm.trans hid'')
      rw [Clients.getClientFdById_of_slot hother hc']
      exact ⟨i, c, Clients.slot_release.trans hslot,
        by rw [Clients.getElem?_release_eq, hc, Option.map_some, if_neg hne], hfd⟩

theorem finds_run {ys : List Arrived} (h : s.Finds id fd)
    (hys : ∀ y ∈ ys, y.tableEvent ≠ .registers ∧
      ∀ n, y.tableEvent = .notifies n → n.appMsgId ≠ id) : (run step s ys).Finds id fd := by
  induction ys generalizing s with
  | nil => exact h
  | cons y ys ih =>
    obtain ⟨hregisters, hnotifies⟩ := hys y List.mem_cons_self
    exact ih (finds_step h hregisters hnotifies) fun y hy => hys y (List.mem_cons_of_mem _ hy)

/-- Under its number a new request finds itself or what stands in front of it. -/
theorem finds_registers (hx : x.tableEvent = .registers) :
    (s.step x).Finds s.appMsgId x.fd ↔ s.Unshadowed x.fd := by
  have hclients := congrArg Prod.fst (step_table s x)
  rw [hx] at hclients
  dsimp only [TableEvent.applyTo] at hclients
  by_cases hfirst : ∀ i, s.clients.slot s.appMsgId = some i → s.clients.next ≤ i
  · refine ⟨fun _ i c hslot hi _ => absurd (hfirst i hslot) (Nat.not_le.mpr hi), fun _ => ?_⟩
    unfold Finds
    rw [hclients]
    exact ⟨_, _, Clients.slot_setClient_self hfirst,
      by rw [Clients.getElem?_setClient, if_pos rfl], rfl⟩
  · obtain ⟨i, hslot, hi⟩ : ∃ i, s.clients.slot s.appMsgId = some i ∧ i < s.clients.next := by
      simpa using hfirst
    obtain ⟨⟨c, hc, -⟩, -⟩ := Clients.slot_eq_some_iff.mp hslot
    have hfinds : (s.step x).Finds s.appMsgId c.fd := by
      unfold Finds
      rw [hclients]
      exact ⟨i, c, Clients.slot_setClient_of_lt hslot hi,
        by rw [Clients.getElem?_setClient, if_neg (Nat.ne_of_gt hi), hc], rfl⟩
    refine ⟨fun h i' c' hslot' _ hc' => ?_, fun h => h i c hslot hi hc ▸ hfinds⟩
    cases hslot.symm.trans hslot'
    cases hc.symm.trans hc'
    exact hfinds.unique h

/-- Some slot is found under the number of a new request. -/
theorem exists_finds_registers (hx : x.tableEvent = .registers) :
    ∃ fd, (s.step x).Finds s.appMsgId fd := by
  have hclients := congrArg Prod.fst (step_table s x)
  rw [hx] at hclients
  dsimp only [TableEvent.applyTo] at hclients
  cases hslot : (s.step x).clients.slot s.appMsgId with
  | none =>
    rw [hclients, Clients.slot_eq_none_iff] at hslot
    have hnew : (s.clients.setClient s.appMsgId x.fd).clients[s.clients.next]? =
        some ⟨x.fd, s.appMsgId⟩ := by rw [Clients.getElem?_setClient, if_pos rfl]
    exact absurd rfl (hslot _ (List.mem_of_getElem? hnew))
  | some i =>
    obtain ⟨⟨c, hc, -⟩, -⟩ := Clients.slot_eq_some_iff.mp hslot
    exact ⟨c.fd, i, c, hslot, hc, rfl⟩

theorem answers_of_finds {t : NotifyType} {fd' : Int} (hy : y.tableEvent = .notifies notify)
    (ht : notify.type = .known t) (h : s.Finds notify.appMsgId fd') :
    s.Answers y fd ↔ 0 < fd ∧ fd' = fd := by
  obtain ⟨i, c, hslot, hc, rfl⟩ := h
  rw [Answers, step_of_notifies hy, Clients.getClientFdById_of_slot hslot hc]
  obtain ⟨⟨bytes, ok, htrace⟩, hpos⟩ | ⟨htrace, hneg⟩ :=
    handleNotify_of_known y.env s.trace c.fd ht
  · rw [htrace]
    constructor
    · rintro ⟨bytes', ok', heq⟩
      obtain ⟨hfd, -⟩ : c.fd = fd ∧ _ := by simpa using heq
      exact ⟨hfd ▸ hpos, hfd⟩
    · rintro ⟨-, rfl⟩
      exact ⟨bytes, ok, rfl⟩
  · rw [htrace]
    constructor
    · rintro ⟨bytes', ok', heq⟩
      simp at heq
    · rintro ⟨hfd, rfl⟩
      omega

/-- The result of the newest message reaches its client if and only if no slot in front of the one
the message was given holds its number with another descriptor. -/
theorem answers_newest_iff (pids : List Int32) (xs : List Arrived) (x : Arrived)
    (hx : x.tableEvent = .registers) (ys : List Arrived)
    (hys : ∀ y ∈ ys, y.tableEvent ≠ .registers ∧
      ∀ n, y.tableEvent = .notifies n → n.appMsgId ≠ (run step (.start pids) xs).appMsgId)
    (y : Arrived) (notify : Notify) (t : NotifyType) (hy : y.tableEvent = .notifies notify)
    (hid : notify.appMsgId = (run step (.start pids) xs).appMsgId)
    (ht : notify.type = .known t) :
    (run step (.start pids) (xs ++ x :: ys)).Answers y x.fd ↔
      0 < x.fd ∧ (run step (.start pids) xs).Unshadowed x.fd := by
  rw [run_append, run_cons]
  generalize run step (.start pids) xs = s at *
  obtain ⟨fd, hfd⟩ := exists_finds_registers (s := s) hx
  have hrun := finds_run hfd hys
  rw [← hid] at hrun
  rw [answers_of_finds hy ht hrun, ← finds_registers hx]
  exact and_congr_right fun _ => ⟨fun h => h ▸ hfd, fun h => hfd.unique h⟩

theorem answers_newest_iff_first :
    (run step (.start forked) ([] ++ [messageOn 5])).Answers (resultOf 0) 5 ↔
      0 < (5 : Int) ∧ (run step (.start forked) []).Unshadowed 5 :=
  answers_newest_iff forked [] (messageOn 5) (by decide +kernel) [] nofun
    (resultOf 0) ⟨.known .gotMessage, 0⟩ .gotMessage (by decide +kernel) rfl rfl

/-- The server, and the number of the newest message until its result has come. -/
structure OneAtATime where
  server : Server
  waiting : Option UInt16

def OneAtATime.step (w : OneAtATime) (x : Arrived) : OneAtATime :=
  ⟨w.server.step x,
    match x.tableEvent with
    | .registers => some w.server.appMsgId
    | .notifies notify => if w.waiting = some notify.appMsgId then none else w.waiting
    | _ => w.waiting⟩

/-- A client starts the numbering again. -/
def resetOn (fd : Int) : Arrived := ⟨fd, .quiet, [3, 8, 0]⟩

/-- After a message and a reset the result of the next message is dropped. -/
theorem answers_newest_after_reset :
    ¬ ∀ (pids : List Int32) (xs : List Arrived) (x y : Arrived) (notify : Notify) (t : NotifyType),
      Steps OneAtATime.step (fun w x => x.tableEvent = .registers → w.waiting = none)
        ⟨.start pids, none⟩ (xs ++ [x]) →
      0 < x.fd → x.tableEvent = .registers → y.tableEvent = .notifies notify →
      notify.appMsgId = (run step (.start pids) xs).appMsgId → notify.type = .known t →
      (run step (.start pids) (xs ++ [x])).Answers y x.fd := by
  intro hclaim
  obtain ⟨bytes, ok, htrace⟩ := hclaim forked
    [messageOn 5, resultOf 0, resetOn 5] (messageOn 5) (resultOf 0)
    ⟨.known .gotMessage, 0⟩ .gotMessage (by refine ⟨?_, ?_, ?_, ?_, trivial⟩ <;> decide +kernel)
    (by decide) (by decide +kernel) (by decide +kernel) (by decide +kernel) rfl
  have hlength := congrArg List.length htrace
  rw [List.length_append, List.length_singleton] at hlength
  exact absurd hlength (by decide +kernel)

end Server

end MeshNet
