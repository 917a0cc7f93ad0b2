import MeshNet.Node.Unicast

/-!
# Which packets raise the flags of a table

Every slot of the table has three flags. A packet that works on the table consults some of them
for its id, and raises some of them in the slots with its id. A slot that is given a new id keeps
the flags of the old one.
-/

namespace MeshNet
open Library

inductive Flag where
  | wasMessage
  | stopInverse
  | unicastFirst
  deriving DecidableEq

namespace Flag

def read : Flag → MessageData → Bool
  | wasMessage, m => m.wasMessage
  | stopInverse, m => m.stopInverse
  | unicastFirst, m => m.unicastFirst

/-- The setter of the flag. -/
def raise (fl : Flag) (t : MessageTable) (id : UInt16) : MessageTable :=
  match fl with
  | wasMessage => t.setWasMessageById id true
  | stopInverse => t.setInverseById id true
  | unicastFirst => t.setUnicastStatusById id true

end Flag

namespace MessageTable

def raised (t : MessageTable) (fl : Flag) (i : Nat) : Bool := (t.messages[i]?).any fl.read

/-- The slot is in use for `id`. -/
def holds (t : MessageTable) (i : Nat) (id : UInt16) : Bool := (t.live[i]?).any (·.id == id)

/-- The slot in which an id is found. -/
def slot (t : MessageTable) (id : UInt16) : Option Nat := t.live.findIdx? (·.id == id)

end MessageTable

namespace Arrival

/-- The flags that are consulted for the id, and the table at that time. -/
def consults (n : Node) : Arrival → List (Flag × MessageTable)
  | direct p =>
    if p.Valid then
      (.wasMessage, n.messages) ::
        if ¬ n.messages.Taken p.appPayload.id ∧ p.receiverAddr = n.addr then
          [(.stopInverse, (n.takeIn p).messages)]
        else []
    else []
  | first _ => [(.unicastFirst, n.messages)]

/-- The flags that are raised for the id. -/
def raises (n : Node) : Arrival → List Flag
  | direct p =>
    if p.Valid ∧ ¬ n.messages.Taken p.appPayload.id then
      .wasMessage ::
        if p.receiverAddr = n.addr ∧ ¬ (n.takeIn p).messages.Answered p.appPayload.id then
          [.stopInverse]
        else []
    else []
  | first c =>
    if (n.messages.lookup c.appPayload.id).map (·.unicastFirst) = some true then []
    else [.unicastFirst]

end Arrival

variable {z : Zlib} {env : Env} {n : Node} {t : MessageTable} {fl fl' : Flag} {i : Nat}
  {id : UInt16}

/-! ## The operations on the table -/

theorem raised_initial : MessageTable.initial.raised fl i = false := by
  unfold MessageTable.raised MessageTable.initial
  rw [List.getElem?_replicate]
  split
  · cases fl <;> rfl
  · rfl

theorem raised_fillMessagesDefault : t.fillMessagesDefault.raised fl i = false :=
  raised_initial

/-- A table that starts again has the flags of its first slot replaced. -/
theorem raised_wrap {m : MessageData} (h : (t.wrap m).raised fl i = true) :
    t.raised fl i = true ∨ i = 0 ∧ fl.read m = true := by
  unfold MessageTable.raised MessageTable.wrap at h
  rw [List.getElem?_set] at h
  split at h
  · rename_i hi
    split at h
    · exact .inr ⟨hi.symm, h⟩
    · cases h
  · exact .inl h

/-- Registering an id raises no flag. -/
theorem raised_register (h : (t.register id).raised fl i = true) : t.raised fl i = true := by
  unfold MessageTable.register at h
  split at h
  · exact h
  · unfold MessageTable.setNewId at h
    split at h
    · refine (raised_wrap h).resolve_right fun hclean => ?_
      have := hclean.2
      cases fl <;> cases this
    · unfold MessageTable.raised at h ⊢
      rw [List.getElem?_modify] at h
      cases hm : t.messages[i]? with
      | none => simp [hm] at h
      | some m =>
        rw [hm] at h
        cases fl <;> (simp [Flag.read] at h ⊢; split at h <;> exact h)

/-- A setter raises its own flag in the slots in use for the id. -/
theorem raised_setFlag {change : MessageData → MessageData} {wrapped : MessageData}
    (hknown : t.lookup id ≠ none)
    (hchange : ∀ m, fl'.read (change m) = true → fl'.read m = true ∨ fl' = fl)
    (h : (t.setFlag change wrapped id).raised fl' i = true) :
    t.raised fl' i = true ∨ fl' = fl ∧ t.holds i id = true := by
  have hset : t.isIdSet id = true := by
    rw [MessageTable.isIdSet_eq]
    exact Option.isSome_iff_ne_none.mpr hknown
  unfold MessageTable.raised at h ⊢
  simp only [MessageTable.setFlag, hset, Bool.not_true, Bool.false_eq_true, if_false,
    List.getElem?_mapIdx] at h
  cases hm : t.messages[i]? with
  | none => simp [hm] at h
  | some m =>
    rw [hm] at h
    simp only [Option.map_some, Option.any_some] at h ⊢
    split at h
    · rename_i hslot
      refine (hchange m h).imp_right fun heq => ⟨heq, ?_⟩
      rw [MessageTable.holds, MessageTable.live, List.getElem?_take, if_pos hslot.1, hm]
      simpa using hslot.2
    · exact .inl h

theorem raised_raise (hknown : t.lookup id ≠ none)
    (h : (fl.raise t id).raised fl' i = true) :
    t.raised fl' i = true ∨ fl' = fl ∧ t.holds i id = true := by
  cases fl with
  | wasMessage => exact raised_setFlag hknown (fun m => by cases fl' <;> simp [Flag.read]) h
  | stopInverse => exact raised_setFlag hknown (fun m => by cases fl' <;> simp [Flag.read]) h
  | unicastFirst => exact raised_setFlag hknown (fun m => by cases fl' <;> simp [Flag.read]) h

theorem holds_setFlag {change : MessageData → MessageData} {wrapped : MessageData}
    (hid : ∀ m, (change m).id = m.id) (hknown : t.lookup id ≠ none) (k : UInt16) :
    (t.setFlag change wrapped id).holds i k = t.holds i k := by
  unfold MessageTable.holds
  rw [MessageTable.live_setFlag hknown, List.getElem?_map]
  cases t.live[i]? with
  | none => rfl
  | some m =>
    simp only [Option.map_some, Option.any_some]
    split <;> simp [hid]

/-- The setters leave the ids in their slots. -/
theorem holds_raise (hknown : t.lookup id ≠ none) (k : UInt16) :
    (fl.raise t id).holds i k = t.holds i k := by
  cases fl <;> (refine holds_setFlag ?_ hknown k; exact fun _ => rfl)

/-! ## The packets -/

theorem messages_takeIn (n : Node) (p : NodePacket) :
    (n.takeIn p).messages =
      Flag.wasMessage.raise (n.messages.register p.appPayload.id) p.appPayload.id := rfl

theorem raised_takeIn {p : NodePacket} (h : (n.takeIn p).messages.raised fl i = true) :
    n.messages.raised fl i = true ∨
      fl = .wasMessage ∧ (n.takeIn p).messages.holds i p.appPayload.id = true := by
  rw [messages_takeIn] at h ⊢
  refine (raised_raise MessageTable.register_ne_none h).imp raised_register fun hnew => ?_
  rw [holds_raise MessageTable.register_ne_none]
  exact hnew

/-- A flag that is raised after a packet was raised before it, or the packet raises it in a slot
with its id. -/
theorem raised_handle {a : Arrival}
    (h : (Arrival.handle z n (env, a)).messages.raised fl i = true) :
    n.messages.raised fl i = true ∨
      fl ∈ a.raises n ∧ (Arrival.handle z n (env, a)).messages.holds i a.id = true := by
  cases a with
  | direct p =>
    change (handleNodeRouteDirect z env n p).2.messages.raised fl i = true at h
    change _ ∨ _ ∧ (handleNodeRouteDirect z env n p).2.messages.holds i p.appPayload.id = true
    by_cases hv : p.Valid
    · by_cases ht : n.messages.Taken p.appPayload.id
      · rw [handleNodeRouteDirect_of_taken ht] at h
        exact .inl h
      · rw [handleNodeRouteDirect_of_not_taken hv ht] at h ⊢
        simp only [Arrival.raises, if_pos (And.intro hv ht)]
        have hknown : (n.takeIn p).messages.lookup p.appPayload.id ≠ none := by
          rw [lookup_takeIn_self]
          exact Option.some_ne_none _
        split at h
        · rename_i hto
          rw [if_pos hto, messages_routeDirectHandleDelivered hv.2] at *
          split at h
          · rename_i hanswered
            rw [if_pos hanswered]
            exact (raised_takeIn h).imp_right (And.imp_left fun hfl => by simp [hfl])
          · rename_i hanswered
            rw [MessageTable.register_of_lookup hknown] at h
            rw [if_neg hanswered, if_pos ⟨hto, hanswered⟩,
              MessageTable.register_of_lookup hknown]
            change (Flag.stopInverse.raise (n.takeIn p).messages _).raised fl i = true at h
            change _ ∨ _ ∧ (Flag.stopInverse.raise (n.takeIn p).messages _).holds i _ = true
            rw [holds_raise hknown]
            obtain hold | ⟨hfl, hheld⟩ := raised_raise hknown h
            · exact (raised_takeIn hold).imp_right (And.imp_left fun hfl => by simp [hfl])
            · exact .inr ⟨by simp [hfl], hheld⟩
        · rename_i hto
          rw [if_neg hto]
          exact (raised_takeIn h).imp_right (And.imp_left fun hfl => by simp [hfl])
    · rw [handleNodeRouteDirect_of_not_valid hv] at h
      exact .inl h
  | first c =>
    change (handleUnicastFirst env n c).messages.raised fl i = true at h
    change _ ∨ _ ∧ (handleUnicastFirst env n c).messages.holds i c.appPayload.id = true
    have hfst : (n.messages.getUnicastStatusById c.appPayload.id).1 =
        (n.messages.lookup c.appPayload.id).map (·.unicastFirst) := MessageTable.getFlag_fst _
    have hsnd : (n.messages.getUnicastStatusById c.appPayload.id).2 =
        n.messages.register c.appPayload.id := MessageTable.getFlag_snd _
    rw [messages_handleUnicastFirst, MessageTable.answered] at h ⊢
    simp only [hfst, hsnd, Arrival.raises] at h ⊢
    split at h
    · exact .inl (raised_register h)
    · rename_i hfirst
      rw [if_neg hfirst, if_neg hfirst]
      change (Flag.unicastFirst.raise _ _).raised fl i = true at h
      change _ ∨ _ ∧ (Flag.unicastFirst.raise _ _).holds i _ = true
      rw [holds_raise MessageTable.register_ne_none]
      exact (raised_raise MessageTable.register_ne_none h).imp raised_register
        (And.imp_left List.mem_singleton.mpr)

end MeshNet
