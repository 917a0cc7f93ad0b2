import MeshNet.Node.Unicast

/-!
# Tables with room

As long as a node hears of no more messages than its table has slots, the table knows each of them
at most once and forgets none.
-/

namespace MeshNet

namespace MessageTable

/-- The ids in the slots in use. -/
def ids (t : MessageTable) : List UInt16 := t.live.map MessageData.id

/-- The table knows none but the ids in `issued`, and each in one slot. -/
structure Within (issued : List UInt16) (t : MessageTable) : Prop where
  nodup : t.ids.Nodup
  mem : ∀ id ∈ t.ids, id ∈ issued

/-- What registering an id and setting its flags makes of a table. -/
inductive Marked (id : UInt16) (t : MessageTable) : MessageTable → Prop
  | register : Marked id t (t.register id)
  | again {t' : MessageTable} (h : Marked id t t') : Marked id t (t'.register id)
  | flag {t' : MessageTable} {change : MessageData → MessageData} {wrapped : MessageData}
      (h : Marked id t t') (hid : ∀ m, (change m).id = m.id) :
      Marked id t (t'.setFlag change wrapped id)

variable {t t' : MessageTable} {id k : UInt16} {issued : List UInt16}

theorem lookup_eq_none : t.lookup id = none ↔ id ∉ t.ids := by
  rw [lookup_eq_none_iff, ids, List.mem_map]
  grind

theorem length_ids : t.ids.length = t.messageNum := by
  have hlen := t.length_messages
  have hle := t.messageNum_le
  simp only [ids, live, List.length_map, List.length_take]
  omega

theorem ids_register (hroom : ¬ t.Wraps id) :
    (t.register id).ids = if id ∈ t.ids then t.ids else t.ids ++ [id] := by
  by_cases hknown : t.lookup id = none
  · have hfree : t.messageNum ≠ maxMessageData := fun hfull => hroom ⟨hfull, hknown⟩
    have hregister : t.register id = t.setNewId id := by simp [register, hknown]
    rw [if_neg (lookup_eq_none.mp hknown), hregister, ids, live_setNewId hfree, List.map_append]
    rfl
  · have hmem : id ∈ t.ids := by rwa [lookup_eq_none, not_not] at hknown
    rw [register_of_lookup hknown, if_pos hmem]

theorem ids_setFlag {change : MessageData → MessageData} {wrapped : MessageData}
    (h : t.lookup id ≠ none) (hid : ∀ m, (change m).id = m.id) :
    (t.setFlag change wrapped id).ids = t.ids := by
  rw [ids, live_setFlag h, List.map_map, ids]
  refine List.map_congr_left fun m _ => ?_
  rw [Function.comp_apply]
  split
  · exact hid m
  · rfl

namespace Marked

theorem ne_none (h : Marked id t t') : t'.lookup id ≠ none := by
  induction h with
  | register => exact register_ne_none
  | again _ _ => exact register_ne_none
  | flag _ hid ih =>
    rw [lookup_setFlag hid ih, if_pos rfl]
    simpa using ih

/-- Whatever flags were set, the ids are those of the table in which the id was registered. -/
theorem ids_eq (h : Marked id t t') : t'.ids = (t.register id).ids := by
  induction h with
  | register => rfl
  | again h ih => rw [register_of_lookup h.ne_none, ih]
  | flag h hid ih => rw [ids_setFlag h.ne_none hid, ih]

theorem trans {t'' : MessageTable} (h : Marked id t t') (h' : Marked id t' t'') :
    Marked id t t'' := by
  induction h' with
  | register => exact .again h
  | again _ ih => exact .again ih
  | flag _ hid ih => exact .flag ih hid

/-- What the table knows of other messages. -/
theorem lookup_ne (h : Marked id t t') (hroom : ¬ t.Wraps id) (hk : id ≠ k) :
    t'.lookup k = t.lookup k := by
  induction h with
  | register => rw [lookup_register_ne hk, if_neg hroom]
  | again h ih => rw [register_of_lookup h.ne_none, ih]
  | flag h hid ih => rw [lookup_setFlag hid h.ne_none, if_neg hk, ih]

end Marked

/-- There is room for every id that was issued. -/
theorem Within.not_wraps (h : t.Within issued) (hid : id ∈ issued)
    (hfew : issued.length ≤ maxMessageData) : ¬ t.Wraps id := by
  rintro ⟨hfull, hnew⟩
  have hnodup : (id :: t.ids).Nodup := List.nodup_cons.mpr ⟨lookup_eq_none.mp hnew, h.nodup⟩
  have hsubset : id :: t.ids ⊆ issued := List.cons_subset.mpr ⟨hid, h.mem⟩
  have hlen := (List.subperm_of_subset hnodup hsubset).length_le
  rw [List.length_cons, length_ids, hfull] at hlen
  omega

theorem Within.marked (h : t.Within issued) (hid : id ∈ issued)
    (hfew : issued.length ≤ maxMessageData) (hmarked : Marked id t t') : t'.Within issued := by
  have hids := hmarked.ids_eq
  rw [ids_register (h.not_wraps hid hfew)] at hids
  by_cases hknown : id ∈ t.ids
  · rw [if_pos hknown] at hids
    exact ⟨hids ▸ h.nodup, hids ▸ h.mem⟩
  · rw [if_neg hknown] at hids
    constructor
    · rw [hids]
      exact List.Nodup.append h.nodup (List.nodup_singleton id) (by simpa using hknown)
    · intro k hk
      rw [hids, List.mem_append, List.mem_singleton] at hk
      obtain hk | rfl := hk
      · exact h.mem k hk
      · exact hid

theorem Within.mono {issued' : List UInt16} (h : t.Within issued) (hsub : issued ⊆ issued') :
    t.Within issued' := ⟨h.nodup, fun id hid => hsub (h.mem id hid)⟩

theorem within_initial : initial.Within issued := ⟨List.nodup_nil, nofun⟩

theorem Within.lookup_eq_none (h : t.Within issued) (hid : id ∉ issued) : t.lookup id = none :=
  MessageTable.lookup_eq_none.mpr fun hmem => hid (h.mem id hmem)

/-- The answer to a contest is registered and marked. -/
theorem marked_answered (t : MessageTable) (id : UInt16) : Marked id t (t.answered id) := by
  have hsnd : (t.getUnicastStatusById id).2 = t.register id := getFlag_snd _
  unfold answered
  dsimp only
  rw [hsnd]
  split
  · exact .register
  · exact .flag .register fun _ => rfl

end MessageTable

end MeshNet
