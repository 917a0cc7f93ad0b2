import MeshNet.Mesh.Contest

/-!
# A message to one node is handled once

A message is handed on along routes as long as there are any, by one node at a time. Where there is
none it is flooded, and what goes on along routes from there on are answers.
-/

namespace MeshNet
open Library

/-- The message was given to an app once at most, and it is answered if it was. -/
def Core.HandledOnce (k : UInt16) (c : Core) : Prop :=
  c.handled.count k ≤ 1 ∧ (c.handled.count k = 1 → c.messages.Answered k)

/-- A packet of the flood for the message, or an answer to it. -/
def Msg.OfFlood (sender receiver : UInt8) (k : UInt16) (msg : Msg) : Prop :=
  ∃ timeToLive, msg = .direct sender receiver timeToLive k ∨
    msg = .inverse sender receiver timeToLive k

/-- The message `k` of `sender` to `receiver` is handed on, or has arrived, or was flooded. -/
inductive Posted (sender receiver : UInt8) (k : UInt16) (s : Service) : Prop where
  | travelling (src : Peer) (b : UInt8)
      (hchannel : ∀ x c, (s.about k).channel x c =
        if x = src ∧ c = b then [.plain (.send sender receiver k)] else [])
      (hstate : ∀ c, (s.about k).state c = 0)
  | arrived (hchannel : ∀ x c, (s.about k).channel x c = [])
      (hstate : ∀ c, (s.about k).state c = if c = receiver then 1 else 0)
  | flooded
      (hchannel : ∀ x c, ∀ l ∈ (s.about k).channel x c, ∃ msg, l = .plain msg ∧
        msg.OfFlood sender receiver k)
      (hstate : ∀ c, c ≠ receiver → (s.about k).state c = 0)
      (honce : (s.state receiver).HandledOnce k)

variable {sender receiver b dst addr : UInt8} {src : Peer} {k : UInt16} {timeToLive : Int8}
  {l : Letter} {ls : List Letter} {s : Service} {ids : List UInt16} {c : Core}

theorem Core.handled_takeIn (c : Core) (x sender : UInt8) (timeToLive : Int8) (k : UInt16) :
    (c.takeIn x sender timeToLive k).handled = c.handled := by
  unfold Core.takeIn
  dsimp only

theorem Core.messages_takeIn (c : Core) (x sender : UInt8) (timeToLive : Int8) (k : UInt16) :
    (c.takeIn x sender timeToLive k).messages =
      (c.messages.register k).setWasMessageById k true := by
  unfold Core.takeIn
  dsimp only

/-- A further copy makes a node forget no answer. -/
theorem handledOnce_takeIn (h : c.HandledOnce k) (x sender : UInt8) (timeToLive : Int8) :
    (c.takeIn x sender timeToLive k).HandledOnce k := by
  rw [Core.HandledOnce, Core.handled_takeIn, Core.messages_takeIn]
  refine ⟨h.1, fun hone => ?_⟩
  have hanswered := h.2 hone
  rw [MessageTable.register_of_lookup hanswered.ne_none, MessageTable.Answered,
    MessageTable.lookup_setWasMessageById hanswered.ne_none, if_pos rfl, Option.map_map]
  exact hanswered

theorem answered_answer (c : Core) (k : UInt16) : (c.answer k).messages.Answered k := by
  rw [MessageTable.Answered, Core.answer,
    MessageTable.lookup_setInverseById MessageTable.register_ne_none, if_pos rfl,
    MessageTable.lookup_register_self]
  rfl

/-- What is answered is not delivered again. -/
theorem handledOnce_deliver (h : c.HandledOnce k) :
    (c.deliver sender receiver k).1.HandledOnce k := by
  obtain ⟨-, heq⟩ | ⟨-, -, heq⟩ | ⟨hdone, -, heq⟩ := Core.deliver_cases c sender receiver k <;>
    rw [heq]
  · exact h
  · exact ⟨h.1, fun _ => answered_answer c k⟩
  · have hnone : c.handled.count k = 0 := by
      have := mt h.2 hdone
      have := h.1
      omega
    exact ⟨by simp [hnone], fun _ => answered_answer c k⟩

theorem handledOnce_direct {x : UInt8} (h : c.HandledOnce k) :
    (c.direct addr x sender receiver timeToLive k).1.HandledOnce k := by
  have htakeIn := handledOnce_takeIn h x sender timeToLive
  obtain ⟨-, heq⟩ | ⟨-, -, -, heq⟩ | ⟨-, -, -, heq⟩ :=
    Core.direct_cases addr c x sender receiver timeToLive k <;> rw [heq]
  · exact h
  · exact handledOnce_deliver htakeIn
  · exact htakeIn

/-- Only the receiver gives a copy to an app. -/
theorem handled_direct_of_ne {x : UInt8} (hto : receiver ≠ addr) :
    (c.direct addr x sender receiver timeToLive k).1.handled = c.handled := by
  obtain ⟨-, heq⟩ | ⟨-, -, hto', -⟩ | ⟨-, -, -, heq⟩ :=
    Core.direct_cases addr c x sender receiver timeToLive k
  · rw [heq]
  · exact absurd hto' hto
  · rw [heq, Core.handled_takeIn]

theorem ofFlood_flood {o : UInt8 × Msg} (h : o ∈ Core.flood addr sender receiver timeToLive k) :
    o.2.OfFlood sender receiver k := by
  obtain ⟨port, -, rfl⟩ := List.mem_map.mp h
  exact ⟨_, .inl rfl⟩

theorem ofFlood_deliver {o : UInt8 × Msg} (h : o ∈ (c.deliver sender receiver k).2) :
    o.2.OfFlood sender receiver k := by
  obtain ⟨-, heq⟩ | ⟨-, -, heq⟩ | ⟨-, -, heq⟩ := Core.deliver_cases c sender receiver k <;>
    rw [heq] at h
  · cases h
  · cases h
  · rw [List.mem_singleton.mp h]
    exact ⟨_, .inr rfl⟩

/-- What a flood causes is of the flood. -/
theorem ofFlood_react {x : UInt8} {msg : Msg} (hmsg : msg.OfFlood sender receiver k)
    {o : UInt8 × Msg} (h : o ∈ (c.react addr x msg).2) : o.2.OfFlood sender receiver k := by
  obtain ⟨timeToLive, rfl | rfl⟩ := hmsg
  · rw [Core.react] at h
    obtain ⟨-, heq⟩ | ⟨-, -, -, heq⟩ | ⟨-, -, -, heq⟩ :=
      Core.direct_cases addr c x sender receiver timeToLive k <;> rw [heq] at h
    · cases h
    · exact ofFlood_deliver h
    · exact ofFlood_flood h
  · rw [Core.react] at h
    obtain ⟨-, heq⟩ | ⟨-, -, heq⟩ := Core.inverse_cases addr c x sender receiver timeToLive k <;>
      rw [heq] at h
    · cases h
    · rw [List.mem_singleton.mp h]
      exact ⟨_, .inr rfl⟩

/-- What a flood makes of a node. -/
theorem handledOnce_react (addr x : UInt8) (c : Core) {msg : Msg}
    (hmsg : msg.OfFlood sender receiver k) :
    (c.HandledOnce k → (c.react addr x msg).1.HandledOnce k) ∧
      (receiver ≠ addr → (c.react addr x msg).1.handled = c.handled) := by
  obtain ⟨timeToLive, rfl | rfl⟩ := hmsg
  · exact ⟨handledOnce_direct, handled_direct_of_ne⟩
  · rw [Core.react]
    obtain ⟨-, heq⟩ | ⟨-, -, heq⟩ := Core.inverse_cases addr c x sender receiver timeToLive k <;>
      rw [heq]
    · exact ⟨id, fun _ => rfl⟩
    · exact ⟨id, fun _ => rfl⟩

theorem Core.serve_plain (addr : UInt8) (src : Peer) (c : Core) (msg : Msg) :
    c.serve addr src (.plain msg) = ((c.react addr src.addr msg).1,
      (c.react addr src.addr msg).2.map fun o => (o.1, .plain o.2)) := rfl

/-- The one who has the message hands it on. -/
theorem posted_travelling
    (hchannel : ∀ x c, (s.about k).channel x c =
      if x = src ∧ c = dst then [.plain (.send sender receiver k)] else [])
    (hstate : ∀ c, (s.about k).state c = 0)
    (hwire : s.channel src dst = .plain (.send sender receiver k) :: ls) :
    Posted sender receiver k (s.step (.deliver src dst)) := by
  have habout := Service.about_deliver (k := k) hwire rfl
  have hnext := Service.state_deliver hwire
  have hpull : ∀ x c, pull src dst (s.about k).channel x c = [] := by
    intro x c
    rw [pull_eq, hchannel]
    split <;> simp_all
  have hnone : ∀ c, (s.state c).handled.count k = 0 := hstate
  rw [Core.serve_plain, Core.react] at habout hnext
  obtain ⟨rfl, heq⟩ | ⟨-, -, heq⟩ | ⟨-, -, heq⟩ :=
    Core.send_cases dst (s.state dst) sender receiver k <;>
    rw [heq] at habout hnext
  · refine .arrived ?_ ?_ <;> rw [habout]
    · intro x c
      simp [hpull]
    · intro c
      by_cases hc : c = receiver
      · simp [hc, hnone]
      · simp [hc, hstate]
  · have hstate' : ∀ c, ((s.step (.deliver src dst)).about k).state c = 0 := by
      intro c
      rw [habout]
      by_cases hc : c = dst
      · simp [hc, hnone]
      · simp [hc, hstate]
    refine .flooded ?_ (fun c _ => hstate' c) ?_
    · intro x c l hl
      rw [habout] at hl
      obtain hold | ⟨-, hnew⟩ := mem_post.mp hl
      · rw [hpull] at hold
        cases hold
      · obtain ⟨o, ho, heq⟩ := List.mem_map.mp hnew
        obtain ⟨-, rfl⟩ := Prod.mk.inj heq
        exact ⟨o.2, rfl, ofFlood_flood ho⟩
    · have hzero : ((s.step (.deliver src dst)).state receiver).handled.count k = 0 :=
        hstate' receiver
      exact ⟨by omega, by omega⟩
  · refine .travelling (.node dst) ((s.state dst).routing.nextAddr receiver) ?_ ?_ <;> rw [habout]
    · intro x c
      simp [post_singleton, hpull]
    · intro c
      by_cases hc : c = dst
      · simp [hc, hnone]
      · simp [hc, hstate]

theorem posted_deliver (h : Posted sender receiver k s) (hwire : s.channel src dst = l :: ls)
    (hl : l.id = k) : Posted sender receiver k (s.step (.deliver src dst)) := by
  have hcons := Service.about_channel_cons hwire hl
  cases h with
  | travelling src' b hchannel hstate =>
    have hhead := hcons
    rw [hchannel] at hhead
    split at hhead
    · rename_i hhere
      obtain ⟨rfl, rfl⟩ := hhere
      obtain ⟨rfl, -⟩ := List.cons.inj hhead
      exact posted_travelling hchannel hstate hwire
    · cases hhead
  | arrived hchannel hstate =>
    rw [hchannel] at hcons
    cases hcons
  | flooded hchannel hstate honce =>
    obtain ⟨msg, rfl, hmsg⟩ := hchannel src dst l (hcons ▸ List.mem_cons_self)
    have habout := Service.about_deliver hwire hl
    have hnext := Service.state_deliver hwire
    obtain ⟨hkept, hother⟩ :=
      handledOnce_react dst src.addr (s.state dst) hmsg
    rw [Core.serve_plain] at habout hnext
    refine .flooded ?_ ?_ ?_
    · intro x c l hl
      rw [habout] at hl
      obtain hold | ⟨-, hnew⟩ := mem_post.mp hl
      · exact hchannel x c l (mem_of_mem_pull hold)
      · obtain ⟨o, ho, heq⟩ := List.mem_map.mp hnew
        obtain ⟨-, rfl⟩ := Prod.mk.inj heq
        exact ⟨o.2, rfl, ofFlood_react hmsg ho⟩
    · intro c hc
      rw [habout]
      by_cases hcd : c = dst
      · subst hcd
        simp only [Function.update_self, hother hc.symm]
        exact hstate c hc
      · simp only [Function.update_of_ne hcd]
        exact hstate c hc
    · rw [hnext]
      by_cases hr : receiver = dst
      · subst hr
        rw [Function.update_self]
        exact hkept honce
      · rwa [Function.update_of_ne hr]

theorem posted_congr {s' : Service} (h : Posted sender receiver k s)
    (habout : s'.about k = s.about k)
    (hlookup : (s'.state receiver).messages.lookup k = (s.state receiver).messages.lookup k) :
    Posted sender receiver k s' := by
  cases h with
  | travelling src b hchannel hstate =>
    exact .travelling src b (habout ▸ hchannel) (habout ▸ hstate)
  | arrived hchannel hstate => exact .arrived (habout ▸ hchannel) (habout ▸ hstate)
  | flooded hchannel hstate honce =>
    have hcount : (s'.state receiver).handled.count k = (s.state receiver).handled.count k :=
      congrArg (fun v => v.state receiver) habout
    refine .flooded (habout ▸ hchannel) (habout ▸ hstate) ?_
    rw [Core.HandledOnce, hcount, MessageTable.Answered, hlookup]
    exact honce

/-- Whatever happens besides, the message is handed on, arrives or is flooded. -/
theorem posted_step (hfew : ids.length ≤ maxMessageData) {i : Service.Label}
    (hi : s.Listed ids k i) (h : Posted sender receiver k s ∧ s.Room ids) :
    Posted sender receiver k (s.step i) ∧ (s.step i).Room ids := by
  obtain ⟨h, hroom⟩ := h
  cases i with
  | client req sender receiver =>
    exact ⟨posted_congr h (Service.about_client req hi.2) rfl, room_client hroom hi.1⟩
  | deliver src dst =>
    refine ⟨?_, room_deliver hroom hfew src dst⟩
    by_cases hk : s.Concerns k (.deliver src dst)
    · obtain ⟨l, ls, hwire, hl⟩ := Service.exists_of_concerns hk
      exact posted_deliver h hwire hl
    · exact posted_congr h (Service.about_deliver_of_not hk)
        (lookup_deliver_of_not hroom hfew hk receiver)

/-- The message is given to an app at most once, and by its receiver only. -/
theorem Posted.handled (h : Posted sender receiver k s) (b : UInt8) :
    (s.state b).handled.count k ≤ if b = receiver then 1 else 0 := by
  cases h with
  | travelling src b' hchannel hstate => exact (hstate b).trans_le (Nat.zero_le _)
  | arrived hchannel hstate => exact (hstate b).le
  | flooded hchannel hstate honce =>
    by_cases hb : b = receiver
    · rw [if_pos hb, hb]
      exact honce.1
    · rw [if_neg hb]
      exact (hstate b hb).le

end MeshNet
