import MeshNet.Settings
import Mathlib.Data.List.Basic
import Mathlib.Tactic.Common

/-!
# The table of clients that wait for a result

The server remembers for the last few requests on which descriptor each of them came. A request
takes the place of the oldest one; a descriptor is given out once.
-/

namespace MeshNet

abbrev maxClient : Nat := 4

/-- `client_t`. -/
structure Client where
  fd : Int
  appId : UInt16
  deriving DecidableEq

structure Clients where
  clients : List Client
  clientNum : Nat
  length_clients : clients.length = maxClient
  clientNum_le : clientNum ≤ maxClient

namespace Clients

/-- `init_clients`, on a table that is zero before. -/
def init : Clients where
  clients := List.replicate maxClient ⟨-1, 0⟩
  clientNum := 0
  length_clients := List.length_replicate
  clientNum_le := Nat.zero_le _

/-- The slot the next request is put into. -/
def next (t : Clients) : Nat := if t.clientNum = maxClient then 0 else t.clientNum

variable (t : Clients)

theorem next_lt : t.next < maxClient := by
  have := t.clientNum_le
  unfold next
  split <;> simp only [maxClient] at * <;> omega

def setClient (id : UInt16) (fd : Int) : Clients where
  clients := t.clients.set t.next ⟨fd, id⟩
  clientNum := t.next + 1
  length_clients := by simp [t.length_clients]
  clientNum_le := t.next_lt

/-- The descriptor in slot `i` is given out. -/
def release (i : Nat) : Clients :=
  { t with
    clients := t.clients.modify i ({ · with fd := -1 })
    length_clients := by simp [t.length_clients] }

/-- The descriptor of the first slot with the id, whether or not it is in use. -/
def getClientFdById (id : UInt16) : Int × Clients :=
  match t.clients.findIdx? fun c => c.appId == id with
  | some i => ((t.clients[i]?.map Client.fd).getD (-1), t.release i)
  | none => (-1, t)

/-- Some slot holds the descriptor. -/
def Holds (fd : Int) : Prop := ∃ c ∈ t.clients, c.fd = fd

instance (fd : Int) : Decidable (t.Holds fd) := by unfold Holds; infer_instance

/-! ## What the slots hold -/

/-- The requests that came after the one in slot `i`, as long as it is in use. -/
def age (i : Nat) : Nat := (t.clientNum + (maxClient - 1) - i) % maxClient

/-- The slots in use hold the last requests, the ids of which end before `upTo`. -/
def Recent (upTo : UInt16) : Prop :=
  ∀ i c, t.clients[i]? = some c → c.fd ≠ -1 → c.appId = upTo - 1 - UInt16.ofNat (t.age i)

variable {t} {upTo id : UInt16} {fd : Int} {i : Nat} {c : Client}

theorem recent_init : init.Recent upTo := by
  intro i c hc hfd
  exact absurd (congrArg Client.fd (List.eq_of_mem_replicate (List.mem_of_getElem? hc))) hfd

theorem lt_of_getElem? (h : t.clients[i]? = some c) : i < maxClient :=
  t.length_clients ▸ (List.getElem?_eq_some_iff.mp h).1

theorem getElem?_setClient :
    (t.setClient id fd).clients[i]? = if t.next = i then some ⟨fd, id⟩ else t.clients[i]? := by
  have hlt : t.next < t.clients.length := t.length_clients ▸ t.next_lt
  simp [setClient, List.getElem?_set, hlt]

theorem age_setClient (hi : i < maxClient) :
    (t.setClient id fd).age i = if t.next = i then 0 else t.age i + 1 := by
  have := t.clientNum_le
  simp only [age, setClient, next, maxClient] at *
  split_ifs <;> omega

/-- Behind the newest request stand the others. -/
theorem recent_setClient (h : t.Recent id) : (t.setClient id fd).Recent (id + 1) := by
  intro i c hc hfd
  have hi := lt_of_getElem? hc
  rw [age_setClient hi]
  rw [getElem?_setClient] at hc
  by_cases hnext : t.next = i
  · rw [if_pos hnext] at hc ⊢
    cases hc
    grind
  · rw [if_neg hnext] at hc ⊢
    rw [h i c hc hfd, UInt16.ofNat_add]
    grind

/-- A slot in use whose place is not taken by a new request holds another id. -/
theorem Recent.ne_of_ne_next (h : t.Recent id) (hc : t.clients[i]? = some c) (hfd : c.fd ≠ -1)
    (hi : t.next ≠ i) : c.appId ≠ id := by
  have hlt := lt_of_getElem? hc
  have hage : t.age i < 3 := by
    have := t.clientNum_le
    simp only [age, next, maxClient] at *
    split at hi <;> omega
  rw [h i c hc hfd]
  obtain h0 | h1 | h2 : t.age i = 0 ∨ t.age i = 1 ∨ t.age i = 2 := by omega
  · rw [h0]; grind
  · rw [h1]; grind
  · rw [h2]; grind

/-- Giving a descriptor out leaves the slots in use among those that were. -/
theorem getElem?_release {j : Nat} (hc : (t.release i).clients[j]? = some c) (hfd : c.fd ≠ -1) :
    t.clients[j]? = some c := by
  simp only [release, List.getElem?_modify] at hc
  cases hold : t.clients[j]? with
  | none => simp [hold] at hc
  | some c' =>
    rw [hold] at hc
    split at hc
    · cases hc
      exact absurd rfl hfd
    · exact hc

theorem recent_release (h : t.Recent upTo) : (t.release i).Recent upTo :=
  fun j c hc hfd => h j c (getElem?_release hc hfd) hfd

/-- What a search returns: the descriptor in a slot of the id, which is then no longer in use,
or nothing. -/
theorem getClientFdById_cases (t : Clients) (id : UInt16) :
    (∃ i c, t.clients[i]? = some c ∧ c.appId = id ∧
      t.getClientFdById id = (c.fd, t.release i)) ∨ t.getClientFdById id = (-1, t) := by
  unfold getClientFdById
  split
  · rename_i i hi
    obtain ⟨hlt, hid, -⟩ := List.findIdx?_eq_some_iff_getElem.mp hi
    exact .inl ⟨i, _, List.getElem?_eq_getElem hlt, by simpa using hid,
      by rw [List.getElem?_eq_getElem hlt]; rfl⟩
  · exact .inr rfl

/-- The slots in use in `t` are in use in `t'`. -/
structure Within (t t' : Clients) : Prop where
  recent : ∀ upTo, t'.Recent upTo → t.Recent upTo
  slots : ∀ (i : Nat) (c : Client), t.clients[i]? = some c → c.fd ≠ -1 → t'.clients[i]? = some c

theorem Within.refl : t.Within t := ⟨fun _ h => h, fun _ _ h _ => h⟩

/-- A search takes slots out of use and puts nothing into them. -/
theorem within_getClientFdById : (t.getClientFdById id).2.Within t := by
  obtain ⟨i, c, -, -, hfound⟩ | hfound := t.getClientFdById_cases id
  · rw [hfound]
    exact ⟨fun _ => recent_release, fun _ _ => getElem?_release⟩
  · rw [hfound]
    exact .refl

end Clients

end MeshNet
