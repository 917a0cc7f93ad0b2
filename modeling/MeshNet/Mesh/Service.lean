import MeshNet.Library.Channels
import MeshNet.Library.Run
import MeshNet.Mesh.Protocol
import MeshNet.Node.Room

/-!
# What the mesh does for its clients

The protocol of the mesh with all the requests by which messages come to apps. A message to one
node goes along routes or is flooded. A broadcast goes from its sender to all neighbours. For a
unicast the sender holds a contest among its neighbours, of which it sends the message to the
first one that answers.
-/

namespace MeshNet
open Library

/-- What matters of a packet or of a contest. -/
inductive Letter where
  | plain (msg : Msg)
  | broadcast (sender : UInt8) (id : UInt16)
  | unicast (sender : UInt8) (id : UInt16)
  | contest (origin : UInt8) (id : UInt16)
  | first (contestant : UInt8) (id : UInt16)
  deriving DecidableEq

def Msg.id : Msg → UInt16
  | .send _ _ id => id
  | .direct _ _ _ id => id
  | .inverse _ _ _ id => id

def Letter.id : Letter → UInt16
  | .plain msg => msg.id
  | .broadcast _ id => id
  | .unicast _ id => id
  | .contest _ id => id
  | .first _ id => id

namespace Core

/-- The first who answers a contest is sent the message. -/
def first (addr : UInt8) (c : Core) (contestant : UInt8) (id : UInt16) :
    Core × List (UInt8 × Letter) :=
  ({ c with messages := c.messages.answered id },
    if c.messages.lookup id = none then [(contestant, .plain (.send addr contestant id))] else [])

/-- What a node does with a letter from `src`, and what it sends to which nodes. -/
def serve (addr : UInt8) (src : Peer) (c : Core) : Letter → Core × List (UInt8 × Letter)
  | .plain msg =>
    let r := c.react addr src.addr msg
    (r.1, r.2.map fun o => (o.1, .plain o.2))
  | .broadcast sender id =>
    (c, (neighbours addr).map fun b => (b, .plain (.send sender b id)))
  | .unicast _ id => (c, (neighbours addr).map fun b => (b, .contest addr id))
  | .contest origin id => (c, [(origin, .first addr id)])
  | .first contestant id => c.first addr contestant id

end Core

structure Service extends Parties Peer UInt8 Core Letter where
  nextId : UInt16

namespace Service

inductive Label where
  | client (req : Request) (sender receiver : UInt8)
  | deliver (src : Peer) (dst : UInt8)
  deriving DecidableEq

/-- Nothing was sent yet, and the next message gets the number `id`. -/
def start (id : UInt16) : Service where
  state _ := .start
  channel _ _ := []
  nextId := id

/-- What the server writes to the sender. -/
def request (req : Request) (sender receiver : UInt8) (id : UInt16) : Letter :=
  match req with
  | .broadcast => .broadcast sender id
  | .unicast => .unicast sender id
  | _ => .plain (.send sender receiver id)

def step (s : Service) : Label → Service
  | .client req sender receiver =>
    { s with
      channel :=
        if InMesh sender then
          post .server [(sender, request req sender receiver s.nextId)] s.channel
        else s.channel
      nextId := s.nextId + 1 }
  | .deliver src dst =>
    { s.toParties.deliver Peer.node Core.serve src dst with nextId := s.nextId }

end Service

variable {addr b sender receiver contestant : UInt8} {src : Peer} {c : Core} {l : Letter}
  {k : Int8} {id : UInt16} {o : UInt8 × Letter}

@[simp] theorem Service.id_request (req : Request) :
    (Service.request req sender receiver id).id = id := by
  unfold Service.request
  split <;> rfl

/-! ## One message at a time -/

/-- What comes of something with the id: all that is sent bears it, at most one app is given the
message, and the table is marked with this id only. -/
structure Core.Deals {α : Type} (idOf : α → UInt16) (id : UInt16) (c : Core)
    (r : Core × List (UInt8 × α)) : Prop where
  out : ∀ o ∈ r.2, idOf o.2 = id
  handled : r.1.handled = c.handled ∨ r.1.handled = c.handled ++ [id]
  messages : r.1.messages = c.messages ∨ c.messages.Marked id r.1.messages

namespace Core

theorem deals_refl {α : Type} {idOf : α → UInt16} : c.Deals idOf id (c, []) :=
  ⟨nofun, .inl rfl, .inl rfl⟩

theorem deals_flood : c.Deals Msg.id id (c, flood addr sender receiver k id) := by
  refine ⟨?_, .inl rfl, .inl rfl⟩
  intro o ho
  obtain ⟨port, -, rfl⟩ := List.mem_map.mp ho
  rfl

theorem deals_send : c.Deals Msg.id id (c.send addr sender receiver id) := by
  obtain ⟨-, heq⟩ | ⟨-, -, heq⟩ | ⟨-, -, heq⟩ := send_cases addr c sender receiver id <;> rw [heq]
  · exact ⟨nofun, .inr rfl, .inl rfl⟩
  · exact deals_flood
  · exact ⟨by simp [Msg.id], .inl rfl, .inl rfl⟩

theorem deals_deliver : c.Deals Msg.id id (c.deliver sender receiver id) := by
  have hmarked : c.messages.Marked id (c.answer id).messages := .flag .register fun _ => rfl
  obtain ⟨-, heq⟩ | ⟨-, -, heq⟩ | ⟨-, -, heq⟩ := deliver_cases c sender receiver id <;> rw [heq]
  · exact deals_refl
  · exact ⟨nofun, .inl rfl, .inr hmarked⟩
  · exact ⟨by simp [Msg.id], .inr rfl, .inr hmarked⟩

theorem marked_takeIn {src : UInt8} :
    c.messages.Marked id (c.takeIn src sender k id).messages := .flag .register fun _ => rfl

theorem deals_direct {src : UInt8} :
    c.Deals Msg.id id (c.direct addr src sender receiver k id) := by
  have hmarked : c.messages.Marked id (c.takeIn src sender k id).messages := marked_takeIn
  obtain ⟨-, heq⟩ | ⟨-, -, -, heq⟩ | ⟨-, -, -, heq⟩ :=
    direct_cases addr c src sender receiver k id <;> rw [heq]
  · exact deals_refl
  · have hdeals : (c.takeIn src sender k id).Deals Msg.id id
        ((c.takeIn src sender k id).deliver sender receiver id) := deals_deliver
    refine ⟨hdeals.out, hdeals.handled, .inr ?_⟩
    obtain heq | hmore := hdeals.messages
    · rwa [heq]
    · exact hmarked.trans hmore
  · exact ⟨(deals_flood (c := c)).out, .inl rfl, .inr hmarked⟩

theorem deals_inverse {src : UInt8} :
    c.Deals Msg.id id (c.inverse addr src sender receiver k id) := by
  obtain ⟨-, heq⟩ | ⟨-, -, heq⟩ := inverse_cases addr c src sender receiver k id <;> rw [heq]
  · exact ⟨nofun, .inl rfl, .inl rfl⟩
  · exact ⟨by simp [Msg.id], .inl rfl, .inl rfl⟩

theorem deals_react (addr src : UInt8) (c : Core) (msg : Msg) :
    c.Deals Msg.id msg.id (c.react addr src msg) := by
  cases msg with
  | send sender receiver id => exact deals_send
  | direct sender receiver k id => exact deals_direct
  | inverse sender receiver k id => exact deals_inverse

theorem deals_serve (addr : UInt8) (src : Peer) (c : Core) (l : Letter) :
    c.Deals Letter.id l.id (c.serve addr src l) := by
  cases l with
  | plain msg =>
    obtain ⟨hout, hhandled, hmessages⟩ := deals_react addr src.addr c msg
    refine ⟨?_, hhandled, hmessages⟩
    intro o ho
    obtain ⟨o, ho', rfl⟩ := List.mem_map.mp ho
    exact hout o ho'
  | broadcast sender id => exact ⟨by simp [serve, Letter.id, Msg.id], .inl rfl, .inl rfl⟩
  | unicast sender id => exact ⟨by simp [serve, Letter.id], .inl rfl, .inl rfl⟩
  | contest origin id => exact ⟨by simp [serve, Letter.id], .inl rfl, .inl rfl⟩
  | first contestant id =>
    refine ⟨?_, .inl rfl, .inr (MessageTable.marked_answered _ _)⟩
    intro o ho
    simp only [serve, first] at ho
    split at ho
    · rw [List.mem_singleton.mp ho]
      rfl
    · cases ho

/-- An app is given no other message. -/
theorem count_serve {k : UInt16} (hk : l.id ≠ k) :
    (c.serve addr src l).1.handled.count k = c.handled.count k := by
  obtain heq | heq := (deals_serve addr src c l).handled <;> rw [heq]
  simp [hk]

/-- What a node knows of other messages, as long as its table has room. -/
theorem lookup_serve {k : UInt16} (hk : l.id ≠ k) (hroom : ¬ c.messages.Wraps l.id) :
    (c.serve addr src l).1.messages.lookup k = c.messages.lookup k := by
  obtain heq | hmarked := (deals_serve addr src c l).messages
  · rw [heq]
  · exact hmarked.lookup_ne hroom hk

end Core

namespace Service

/-- How often each node has given the message to its apps, and what is under way of it. -/
def about (k : UInt16) (s : Service) : Parties Peer UInt8 Nat Letter :=
  s.toParties.view (fun c => c.handled.count k) fun l => l.id == k

/-- What is delivered is about the message `k`. -/
def Concerns (k : UInt16) (s : Service) : Label → Prop
  | .client .. => False
  | .deliver src dst => ∃ l ∈ (s.channel src dst).head?, l.id = k

instance (k : UInt16) (s : Service) (i : Label) : Decidable (s.Concerns k i) := by
  cases i <;> unfold Concerns <;> infer_instance

variable {s : Service} {dst : UInt8} {k : UInt16} {ls : List Letter}

theorem concerns_deliver (h : s.channel src dst = l :: ls) :
    s.Concerns k (.deliver src dst) ↔ l.id = k := by
  simp [Concerns, h]

theorem exists_of_concerns (h : s.Concerns k (.deliver src dst)) :
    ∃ l ls, s.channel src dst = l :: ls ∧ l.id = k := by
  obtain ⟨l, hl, hk⟩ := h
  obtain ⟨ls, hls⟩ := List.head?_eq_some_iff.mp hl
  exact ⟨l, ls, hls, hk⟩

theorem about_channel_cons (h : s.channel src dst = l :: ls) (hl : l.id = k) :
    (s.about k).channel src dst = l :: ls.filter fun l => l.id == k :=
  Parties.view_channel_cons h (beq_iff_eq.mpr hl)

theorem mem_about : l ∈ (s.about k).channel src dst ↔ l ∈ s.channel src dst ∧ l.id = k := by
  simp [about, Parties.view, Library.about]

/-- A request for another message. -/
theorem about_client (req : Request) (hk : s.nextId ≠ k) :
    (s.step (.client req sender receiver)).about k = s.about k := by
  simp only [about, Parties.view, step]
  split
  · rw [about_post]
    simp [hk]
  · rfl

/-- The request for the message itself. -/
theorem about_client_self (req : Request) (hs : InMesh sender) :
    (s.step (.client req sender receiver)).about s.nextId =
      { s.about s.nextId with
        channel := post .server [(sender, request req sender receiver s.nextId)]
          (s.about s.nextId).channel } := by
  simp only [about, Parties.view, step, if_pos hs, about_post]
  simp

theorem about_deliver_of_not (h : ¬ s.Concerns k (.deliver src dst)) :
    (s.step (.deliver src dst)).about k = s.about k := by
  cases hwire : s.channel src dst with
  | nil => exact congrArg (Parties.view _ _) (Parties.deliver_nil hwire)
  | cons l ls =>
    rw [concerns_deliver hwire] at h
    have hout : ∀ o ∈ (Core.serve dst src (s.state dst) l).2, o.2.id = l.id :=
      (Core.deals_serve ..).out
    exact Parties.view_deliver_of_neg hwire (by simpa using h)
      (fun o ho => by simpa [hout o ho] using h) (Core.count_serve h)

theorem about_deliver (hwire : s.channel src dst = l :: ls) (hl : l.id = k) :
    (s.step (.deliver src dst)).about k =
      { state := Function.update (s.about k).state dst
          ((Core.serve dst src (s.state dst) l).1.handled.count k)
        channel := post (.node dst) (Core.serve dst src (s.state dst) l).2
          (pull src dst (s.about k).channel) } := by
  have hout : ∀ o ∈ (Core.serve dst src (s.state dst) l).2, o.2.id = l.id :=
    (Core.deals_serve ..).out
  exact Parties.view_deliver_of_pos hwire (beq_iff_eq.mpr hl)
    fun o ho => by simpa [hout o ho] using hl

theorem state_deliver (hwire : s.channel src dst = l :: ls) :
    (s.step (.deliver src dst)).state =
      Function.update s.state dst (Core.serve dst src (s.state dst) l).1 :=
  Parties.state_deliver hwire

/-- What was given to an app was given. -/
theorem count_step_le (s : Service) (i : Label) (b : UInt8) :
    (s.state b).handled.count k ≤ ((s.step i).state b).handled.count k := by
  cases i with
  | client req sender receiver => exact Nat.le_refl _
  | deliver src dst =>
    cases hwire : s.channel src dst with
    | nil =>
      have hsame : (s.step (.deliver src dst)).state = s.state :=
        congrArg Parties.state (Parties.deliver_nil hwire)
      rw [hsame]
    | cons l ls =>
      rw [state_deliver hwire]
      by_cases hb : b = dst
      · rw [hb, Function.update_self]
        obtain heq | heq := (Core.deals_serve dst src (s.state dst) l).handled <;> rw [heq]
        rw [List.count_append]
        exact Nat.le_add_right _ _
      · rw [Function.update_of_ne hb]

end Service

end MeshNet
