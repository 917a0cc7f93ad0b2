import MeshNet.Mesh.Once

/-!
# The numbers of the messages

The server numbers the messages one after the other. Until the numbers wrap, all that is under way,
was handled or is known is about messages that clients have asked for, and of a message that was
just asked for there is nothing but the request.
-/

namespace MeshNet
open Library

/-- The numbers of the first `n` messages. -/
def issued (first : UInt16) (n : Nat) : List UInt16 :=
  (List.range n).map fun i => first + UInt16.ofNat i

namespace Service

/-- Clients have asked for `n` messages, and there is nothing of any other. -/
structure Issued (first : UInt16) (n : Nat) (s : Service) : Prop where
  nextId : s.nextId = first + UInt16.ofNat n
  letters : ∀ src b, ∀ l ∈ s.channel src b, l.id ∈ issued first n
  handled : ∀ a, ∀ k ∈ (s.state a).handled, k ∈ issued first n
  tables : n ≤ maxMessageData → ∀ a, (s.state a).messages.Within (issued first n)

end Service

variable {first : UInt16} {n m : Nat} {s : Service} {k : UInt16} {sender receiver : UInt8}

theorem mem_issued : k ∈ issued first n ↔ ∃ i < n, k = first + UInt16.ofNat i := by
  simp only [issued, List.mem_map, List.mem_range]
  grind

@[simp] theorem length_issued : (issued first n).length = n := by simp [issued]

theorem issued_mono (h : n ≤ m) : issued first n ⊆ issued first m := by
  intro k hk
  obtain ⟨i, hi, rfl⟩ := mem_issued.mp hk
  exact mem_issued.mpr ⟨i, Nat.lt_of_lt_of_le hi h, rfl⟩

/-- Numbers come again after all others only. -/
theorem issued_ne {i j : Nat} (hij : i < j) (hj : j < 65536) :
    first + UInt16.ofNat j ≠ first + UInt16.ofNat i := by
  intro heq
  have hof := congrArg UInt16.toNat ((UInt16.add_right_inj first).mp heq)
  simp only [UInt16.toNat_ofNat'] at hof
  omega

theorem not_mem_issued (hn : n < 65536) : first + UInt16.ofNat n ∉ issued first n := by
  intro hmem
  obtain ⟨i, hi, heq⟩ := mem_issued.mp hmem
  exact issued_ne hi hn heq

/-! ## Step by step -/

theorem issued_start : (Service.start first).Issued first 0 where
  nextId := by simp [Service.start]
  letters _ _ := nofun
  handled _ := nofun
  tables _ _ := MessageTable.within_initial

theorem issued_client (h : s.Issued first n) (req : Request) :
    (s.step (.client req sender receiver)).Issued first (n + 1) := by
  have hsub : issued first n ⊆ issued first (n + 1) := issued_mono (Nat.le_succ n)
  refine ⟨?_, ?_, fun a k hk => hsub (h.handled a k hk),
    fun hn a => (h.tables (by omega) a).mono hsub⟩
  · simp only [Service.step, h.nextId, UInt16.ofNat_add, UInt16.add_assoc]
    rfl
  · intro src b l hl
    simp only [Service.step] at hl
    split at hl
    · obtain hold | ⟨-, hnew⟩ := mem_post.mp hl
      · exact hsub (h.letters src b l hold)
      · rw [(Prod.mk.inj (List.mem_singleton.mp hnew)).2, Service.id_request, h.nextId]
        exact mem_issued.mpr ⟨n, Nat.lt_succ_self n, rfl⟩
    · exact hsub (h.letters src b l hl)

theorem issued_deliver (h : s.Issued first n) (src : Peer) (dst : UInt8) :
    (s.step (.deliver src dst)).Issued first n := by
  cases hwire : s.channel src dst with
  | nil =>
    have hsame : (s.step (.deliver src dst)).toParties = s.toParties :=
      Parties.deliver_nil hwire
    exact ⟨h.nextId, hsame ▸ h.letters, hsame ▸ h.handled, hsame ▸ h.tables⟩
  | cons l ls =>
    have hl : l.id ∈ issued first n := h.letters src dst l (hwire ▸ List.mem_cons_self)
    obtain ⟨hout, hhandled, hmessages⟩ := Core.deals_serve dst src (s.state dst) l
    refine ⟨h.nextId, ?_, ?_, ?_⟩
    · intro x b m hm
      obtain hold | ⟨-, hnew⟩ := Parties.mem_channel_deliver hwire hm
      · exact h.letters x b m hold
      · exact hout _ hnew ▸ hl
    · refine Parties.forall_state_deliver hwire
        (P := fun _ c => ∀ k ∈ c.handled, k ∈ issued first n) ?_ h.handled
      obtain heq | heq := hhandled <;> rw [heq]
      · exact h.handled dst
      · intro k hk
        obtain hk | hk := List.mem_append.mp hk
        · exact h.handled dst k hk
        · exact List.mem_singleton.mp hk ▸ hl
    · intro hn
      refine Parties.forall_state_deliver hwire
        (P := fun _ c => c.messages.Within (issued first n)) ?_ (h.tables hn)
      obtain heq | hmarked := hmessages
      · rw [heq]
        exact h.tables hn dst
      · exact (h.tables hn dst).marked hl (by simpa using hn) hmarked

/-! ## What was just asked for -/

theorem Service.Issued.room (h : s.Issued first n) (hle : n ≤ m) (hm : m ≤ maxMessageData) :
    s.Room (issued first m) where
  letters src b l hl := issued_mono hle (h.letters src b l hl)
  tables a := (h.tables (Nat.le_trans hle hm) a).mono (issued_mono hle)

/-- Nobody has heard of the next message. -/
theorem Service.Issued.not_knows (h : s.Issued first n) (hn : n < maxMessageData) (a : UInt8) :
    ¬ s.Knows (first + UInt16.ofNat n) a := by
  have hsmall : maxMessageData < 65536 := by decide
  exact not_not.mpr ((h.tables (Nat.le_of_lt hn) a).lookup_eq_none
    (not_mem_issued (Nat.lt_trans hn hsmall)))

theorem Service.Issued.about (h : s.Issued first n) (hn : n < 65536) :
    (∀ src b, (s.about s.nextId).channel src b = []) ∧
      ∀ b, (s.about s.nextId).state b = 0 := by
  have hnew : s.nextId ∉ issued first n := h.nextId ▸ not_mem_issued hn
  constructor
  · intro src b
    refine List.eq_nil_iff_forall_not_mem.mpr fun l hl => ?_
    obtain ⟨hl, hid⟩ := Service.mem_about.mp hl
    exact hnew (hid ▸ h.letters src b l hl)
  · intro b
    exact List.count_eq_zero.mpr fun hmem => hnew (h.handled b _ hmem)

/-- Of the message that a client asks for there is the request. -/
theorem requested_client (h : s.Issued first n) (hn : n < 65536) (hs : InMesh sender)
    (req : Request) :
    Requested sender (Service.request req sender receiver (first + UInt16.ofNat n))
      ((s.step (.client req sender receiver)).about (first + UInt16.ofNat n)) := by
  obtain ⟨hchannel, hstate⟩ := h.about hn
  rw [← h.nextId, Service.about_client_self req hs]
  refine ⟨?_, hstate⟩
  intro src b
  simp [post_singleton, hchannel]

/-- A message to one node is under way from the server to its sender, if there is such a node. -/
theorem posted_client (h : s.Issued first n) (hn : n < 65536) :
    Posted sender receiver (first + UInt16.ofNat n)
      (s.step (.client .send sender receiver)) := by
  by_cases hs : InMesh sender
  · have hreq : Requested sender (Service.request .send sender receiver _) _ :=
      requested_client h hn hs .send
    exact .travelling .server sender hreq.channel hreq.state
  · obtain ⟨hchannel, hstate⟩ := h.about hn
    rw [← h.nextId]
    have hsame : (s.step (.client .send sender receiver)).about s.nextId = s.about s.nextId := by
      simp [Service.about, Service.step, hs]
    have hzero : ((s.step (.client .send sender receiver)).state receiver).handled.count s.nextId =
        0 := hstate receiver
    refine .flooded ?_ (fun c _ => hsame ▸ hstate c) ⟨by omega, by omega⟩
    intro x c l hl
    rw [hsame, hchannel] at hl
    cases hl

end MeshNet
