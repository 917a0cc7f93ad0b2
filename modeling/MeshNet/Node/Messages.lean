import MeshNet.Settings
import Mathlib.Data.List.Basic
import Mathlib.Tactic.Common

/-!
# The table of message ids a node has seen

A hundred slots and a counter of how many are in use. A search looks at the slots in use
only. An id that is not found is given the next slot; when all slots are in use the counter
starts again at the first, so that the ids in the other slots are no longer found. Only that
first slot is cleared: every other slot hands its old flags on to its new id.
-/

namespace MeshNet

abbrev maxMessageData : Nat := 100

structure MessageData where
  id : UInt16
  stopInverse : Bool
  wasMessage : Bool
  unicastFirst : Bool
  deriving DecidableEq

/-- An entry for `id` with no flag raised. -/
def MessageData.clean (id : UInt16) : MessageData := ⟨id, false, false, false⟩

instance : Inhabited MessageData := ⟨.clean 0⟩

structure MessageTable where
  messages : List MessageData
  messageNum : Nat
  length_messages : messages.length = maxMessageData
  messageNum_le : messageNum ≤ maxMessageData

namespace MessageTable

/-- The zero-initialised static array, which is what `init_messages_data` fills in. -/
def initial : MessageTable where
  messages := List.replicate maxMessageData (.clean 0)
  messageNum := 0
  length_messages := List.length_replicate
  messageNum_le := Nat.zero_le _

/-- `fill_messages_default`, which leaves the counter alone. -/
def fillMessagesDefault (t : MessageTable) : MessageTable where
  messages := List.replicate maxMessageData (.clean 0)
  messageNum := t.messageNum
  length_messages := List.length_replicate
  messageNum_le := t.messageNum_le

/-- The slots in use. -/
def live (t : MessageTable) : List MessageData := t.messages.take t.messageNum

/-- The first slot in use that holds `id`. -/
def lookup (t : MessageTable) (id : UInt16) : Option MessageData :=
  t.live.find? fun m => m.id == id

def isIdSet (t : MessageTable) (id : UInt16) : Bool := t.live.any fun m => m.id == id

/-- Start again at the first slot, with `m` in it. -/
def wrap (t : MessageTable) (m : MessageData) : MessageTable where
  messages := t.messages.set 0 m
  messageNum := 1
  length_messages := by simp [t.length_messages]
  messageNum_le := by decide

def setNewId (t : MessageTable) (id : UInt16) : MessageTable :=
  if h : t.messageNum = maxMessageData then t.wrap (.clean id)
  else
    { messages := t.messages.modify t.messageNum fun m => { m with id := id }
      messageNum := t.messageNum + 1
      length_messages := by simp [t.length_messages]
      messageNum_le := by have := t.messageNum_le; omega }

/-- The table in which `id` is known. -/
def register (t : MessageTable) (id : UInt16) : MessageTable :=
  match t.lookup id with
  | some _ => t
  | none => t.setNewId id

/-- The three getters: the flag of a known id; an unknown id is registered. -/
def getFlag (flag : MessageData → Bool) (t : MessageTable) (id : UInt16) :
    Option Bool × MessageTable :=
  match t.lookup id with
  | some m => (some (flag m), t)
  | none => (none, t.setNewId id)

def getInverseById := getFlag MessageData.stopInverse

def getWasMessageById := getFlag MessageData.wasMessage

def getUnicastStatusById := getFlag MessageData.unicastFirst

/-- The three setters: they change every slot of a known id. An unknown id is put, as
`wrapped`, into the first slot of a full table and is otherwise ignored. -/
def setFlag (change : MessageData → MessageData) (wrapped : MessageData) (t : MessageTable)
    (id : UInt16) : MessageTable :=
  if !t.isIdSet id then
    if t.messageNum = maxMessageData then t.wrap wrapped else t
  else
    { t with
      messages := t.messages.mapIdx fun i m =>
        if i < t.messageNum ∧ m.id = id then change m else m
      length_messages := by simp [t.length_messages] }

def setInverseById (t : MessageTable) (id : UInt16) (b : Bool) : MessageTable :=
  t.setFlag (fun m => { m with stopInverse := b }) ⟨id, b, false, false⟩ id

def setWasMessageById (t : MessageTable) (id : UInt16) (b : Bool) : MessageTable :=
  t.setFlag (fun m => { m with wasMessage := b }) ⟨id, false, b, false⟩ id

/-- On a full table this setter clears the flag it has just set. -/
def setUnicastStatusById (t : MessageTable) (id : UInt16) (b : Bool) : MessageTable :=
  t.setFlag (fun m => { m with unicastFirst := b }) ⟨id, false, false, false⟩ id

/-! ## The slots in use -/

variable {t : MessageTable} {id k : UInt16}

/-- The slot the next new id is put into. -/
def nextSlot (t : MessageTable) : MessageData := t.messages.getD t.messageNum default

theorem isIdSet_eq : t.isIdSet id = (t.lookup id).isSome := by
  rw [isIdSet, lookup, List.isSome_find?]

theorem lookup_id {m : MessageData} (h : t.lookup id = some m) : m.id = id := by
  simpa using List.find?_some h

@[simp] theorem lookup_initial : initial.lookup id = none := rfl

@[simp] theorem messageNum_initial : initial.messageNum = 0 := rfl

theorem live_wrap (m : MessageData) : (t.wrap m).live = [m] := by
  have h := t.length_messages
  rcases hm : t.messages with _ | ⟨x, xs⟩
  · simp [hm] at h
  · simp [wrap, live, hm]

theorem lookup_wrap {m : MessageData} :
    (t.wrap m).lookup k = if m.id = k then some m else none := by
  rw [lookup, live_wrap]
  by_cases h : m.id = k <;> simp [h]

theorem live_setNewId (h : t.messageNum ≠ maxMessageData) :
    (t.setNewId id).live = t.live ++ [{ t.nextSlot with id := id }] := by
  have hlt : t.messageNum < t.messages.length := by
    have := t.messageNum_le
    have := t.length_messages
    omega
  simp only [setNewId, h, dite_false, live, nextSlot]
  rw [List.take_add_one, List.take_modify, List.modify_eq_self (List.length_take_le _ _)]
  simp [hlt, List.getD_eq_getElem?_getD]

theorem setNewId_full (h : t.messageNum = maxMessageData) :
    t.setNewId id = t.wrap (.clean id) := by simp [setNewId, h]

theorem lookup_setNewId (hk : t.lookup id = none) :
    (t.setNewId id).lookup k =
      if t.messageNum = maxMessageData then if id = k then some (.clean id) else none
      else if id = k then some { t.nextSlot with id := id } else t.lookup k := by
  split
  · rename_i h
    rw [setNewId_full h, lookup_wrap]
    rfl
  · rename_i h
    rw [lookup, live_setNewId h, List.find?_append]
    by_cases hid : id = k
    · subst hid
      rw [show t.live.find? (fun m => m.id == id) = none from hk]
      simp
    · simp [hid, lookup]

theorem messageNum_setNewId :
    (t.setNewId id).messageNum =
      if t.messageNum = maxMessageData then 1 else t.messageNum + 1 := by
  unfold setNewId
  split <;> simp_all [wrap]

/-- A getter followed by its setter never meets the setters' own way of registering. -/
theorem live_setFlag {change : MessageData → MessageData} {wrapped : MessageData}
    (h : t.lookup id ≠ none) :
    (t.setFlag change wrapped id).live =
      t.live.map fun m => if m.id = id then change m else m := by
  have hset : t.isIdSet id = true := by
    rw [isIdSet_eq]
    exact Option.isSome_iff_ne_none.mpr h
  simp only [setFlag, hset, Bool.not_true, Bool.false_eq_true, if_false, live]
  apply List.ext_getElem
  · simp
  · intro i hi hi'
    have hlt : i < t.messageNum := by simp at hi; omega
    simp [hlt]

theorem lookup_setFlag {change : MessageData → MessageData} {wrapped : MessageData}
    (hid : ∀ m, (change m).id = m.id) (h : t.lookup id ≠ none) :
    (t.setFlag change wrapped id).lookup k =
      if id = k then (t.lookup k).map change else t.lookup k := by
  rw [lookup, live_setFlag h, List.find?_map]
  have hsame : ((fun m : MessageData => m.id == k) ∘ fun m => if m.id = id then change m else m) =
      fun m => m.id == k := by
    funext m
    simp only [Function.comp_apply]
    split <;> simp [hid]
  rw [hsame]
  by_cases hk : id = k
  · subst hk
    rw [if_pos rfl]
    cases hf : t.lookup id with
    | none => exact absurd hf h
    | some m =>
      have := lookup_id hf
      simp [show t.live.find? (fun m => m.id == id) = some m from hf, this]
  · rw [if_neg hk]
    cases hf : t.lookup k with
    | none => simp [show t.live.find? (fun m => m.id == k) = none from hf]
    | some m =>
      have := lookup_id hf
      simp [show t.live.find? (fun m => m.id == k) = some m from hf, this, Ne.symm hk]

theorem lookup_setInverseById (h : t.lookup id ≠ none) (b : Bool) :
    (t.setInverseById id b).lookup k =
      if id = k then (t.lookup k).map ({ · with stopInverse := b }) else t.lookup k :=
  lookup_setFlag (fun _ => rfl) h

theorem lookup_setWasMessageById (h : t.lookup id ≠ none) (b : Bool) :
    (t.setWasMessageById id b).lookup k =
      if id = k then (t.lookup k).map ({ · with wasMessage := b }) else t.lookup k :=
  lookup_setFlag (fun _ => rfl) h

theorem lookup_setUnicastStatusById (h : t.lookup id ≠ none) (b : Bool) :
    (t.setUnicastStatusById id b).lookup k =
      if id = k then (t.lookup k).map ({ · with unicastFirst := b }) else t.lookup k :=
  lookup_setFlag (fun _ => rfl) h

@[simp] theorem messageNum_setFlag {change : MessageData → MessageData} {wrapped : MessageData}
    (h : t.lookup id ≠ none) : (t.setFlag change wrapped id).messageNum = t.messageNum := by
  have hset : t.isIdSet id = true := by
    rw [isIdSet_eq]
    exact Option.isSome_iff_ne_none.mpr h
  simp [setFlag, hset]

theorem lookup_eq_none_iff : t.lookup id = none ↔ ∀ m ∈ t.live, m.id ≠ id := by
  simp [lookup]

/-- Setting a flag of the last slot in use. -/
theorem live_setFlag_append {change : MessageData → MessageData} {wrapped : MessageData}
    {ms : List MessageData} {m : MessageData} (hlive : t.live = ms ++ [m]) (hm : m.id = id)
    (hms : ∀ m ∈ ms, m.id ≠ id) : (t.setFlag change wrapped id).live = ms ++ [change m] := by
  have hknown : t.lookup id ≠ none := fun h =>
    lookup_eq_none_iff.mp h m (by simp [hlive]) hm
  have hsame : ms.map (fun m => if m.id = id then change m else m) = ms := by
    simpa using List.map_congr_left (g := fun m => m) fun m hmem => if_neg (hms m hmem)
  rw [live_setFlag hknown, hlive, List.map_append, hsame, List.map_cons, if_pos hm, List.map_nil]

/-- The slot behind those in use is not touched. -/
theorem nextSlot_setFlag {change : MessageData → MessageData} {wrapped : MessageData}
    (h : t.lookup id ≠ none) : (t.setFlag change wrapped id).nextSlot = t.nextSlot := by
  have hset : t.isIdSet id = true := by
    rw [isIdSet_eq]
    exact Option.isSome_iff_ne_none.mpr h
  simp [setFlag, hset, nextSlot, List.getD_eq_getElem?_getD, List.getElem?_mapIdx]

/-! ## Registering and setting a flag -/

theorem getFlag_fst (flag : MessageData → Bool) :
    (getFlag flag t id).1 = (t.lookup id).map flag := by
  unfold getFlag
  split <;> simp_all

theorem getFlag_snd (flag : MessageData → Bool) : (getFlag flag t id).2 = t.register id := by
  unfold getFlag register
  split <;> simp_all

/-- Registering an id starts the table again. -/
def Wraps (t : MessageTable) (id : UInt16) : Prop :=
  t.messageNum = maxMessageData ∧ t.lookup id = none

instance : Decidable (t.Wraps id) := by unfold Wraps; infer_instance

/-- The entry that an id has or is given. -/
def entry (t : MessageTable) (id : UInt16) : MessageData :=
  match t.lookup id with
  | some m => m
  | none => if t.messageNum = maxMessageData then .clean id else { t.nextSlot with id := id }

theorem lookup_register_self : (t.register id).lookup id = some (t.entry id) := by
  unfold register entry
  split
  · assumption
  · rename_i h
    rw [lookup_setNewId h]
    split <;> simp

theorem lookup_register_ne (h : id ≠ k) :
    (t.register id).lookup k = if t.Wraps id then none else t.lookup k := by
  unfold register Wraps
  split
  · simp_all
  · rename_i hnone
    rw [lookup_setNewId hnone]
    simp [h, hnone]

theorem register_ne_none : (t.register id).lookup id ≠ none := by
  simp [lookup_register_self]

theorem register_of_lookup (h : t.lookup id ≠ none) : t.register id = t := by
  unfold register
  split
  · rfl
  · contradiction

end MessageTable

end MeshNet
