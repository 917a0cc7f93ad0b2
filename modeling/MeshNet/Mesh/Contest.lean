import MeshNet.Mesh.Casts

/-!
# How broadcasts and unicasts end

Every delivery brings a broadcast or a unicast nearer to its end, whatever else is under way, and
nothing else touches it. A broadcast ends when every neighbour has given the message to an app; a
unicast, when the one that won the contest has.
-/

namespace MeshNet
open Library

/-- The broadcast of `a`, before its last `n` deliveries. -/
inductive Broadcasting (a : UInt8) (k : UInt16) (n : Nat) (s : Service) : Prop where
  | asked (h : Requested a (.broadcast a k) (s.about k)) (hn : n = 1 + (neighbours a).length)
  | spread (stage : UInt8 → Stage) (h : Staged a k stage (s.about k))
      (hstage : ∀ b, Adjacent a b → stage b = .award ∨ stage b = .handled)
      (hn : n = Stage.total a stage)

/-- The unicast of `a`, before its last `n` deliveries. -/
inductive Contesting (a : UInt8) (k : UInt16) (n : Nat) (s : Service) : Prop where
  | asked (h : Requested a (.unicast a k) (s.about k)) (hnew : ¬ s.Knows k a)
      (hn : n = 2 + (neighbours a).length * 2)
  | held (stage : UInt8 → Stage) (h : Staged a k stage (s.about k)) (hnew : ¬ s.Knows k a)
      (hstage : ∀ b, Adjacent a b → stage b = .contest ∨ stage b = .answered)
      (hn : n = 1 + Stage.total a stage)
  | won (stage : UInt8 → Stage) (h : Staged a k stage (s.about k)) (hknown : s.Knows k a)
      (w : UInt8) (hw : Adjacent a w) (hwon : stage w = .award ∨ stage w = .handled)
      (hlost : ∀ b, Adjacent a b → b ≠ w →
        stage b = .contest ∨ stage b = .answered ∨ stage b = .idle)
      (hn : n = Stage.total a stage)

namespace Service

/-- Nothing of the message `k` is under way. -/
def Clear (k : UInt16) (s : Service) : Prop := ∀ src b, ∀ l ∈ s.channel src b, l.id ≠ k

/-- The number that the server gives out is one of `ids`, and not `k` again. -/
def Listed (ids : List UInt16) (k : UInt16) (s : Service) : Label → Prop
  | .client .. => s.nextId ∈ ids ∧ s.nextId ≠ k
  | .deliver .. => True

/-- No table of a node runs out of room for the ids in `ids`, and no other ids are under way. -/
structure Room (ids : List UInt16) (s : Service) : Prop where
  letters : ∀ src b, ∀ l ∈ s.channel src b, l.id ∈ ids
  tables : ∀ a, (s.state a).messages.Within ids

end Service

variable {a b dst : UInt8} {src : Peer} {k : UInt16} {stage : UInt8 → Stage} {n : Nat}
  {l : Letter} {ls : List Letter} {s : Service} {ids : List UInt16}

/-! ## Broadcasts -/

/-- With no neighbour anything is under way when nothing is. -/
theorem Staged.not_under_way (h : Staged a k stage (s.about k)) (hclear : s.Clear k)
    (hb : Adjacent a b) : stage b ≠ .contest ∧ stage b ≠ .answered ∧ stage b ≠ .award := by
  refine ⟨?_, ?_, ?_⟩
  · intro hcontest
    have hmem : Letter.contest a k ∈ (s.about k).channel (.node a) b := by
      simp [h.out, hcontest, Stage.toNeighbour]
    exact absurd rfl (hclear _ _ _ (Service.mem_about.mp hmem).1)
  · intro hanswered
    have hmem : Letter.first b k ∈ (s.about k).channel (.node b) a := by
      simp [h.back _ hb.ne, hanswered, Stage.toOrigin]
    exact absurd rfl (hclear _ _ _ (Service.mem_about.mp hmem).1)
  · intro haward
    have hmem : Letter.plain (.send a b k) ∈ (s.about k).channel (.node a) b := by
      simp [h.out, haward, Stage.toNeighbour]
    exact absurd rfl (hclear _ _ _ (Service.mem_about.mp hmem).1)

theorem broadcasting_congr {s' : Service} (h : Broadcasting a k n s)
    (habout : s'.about k = s.about k) : Broadcasting a k n s' := by
  cases h with
  | asked h hn => exact .asked (habout ▸ h) hn
  | spread stage h hstage hn => exact .spread stage (habout ▸ h) hstage hn

theorem broadcasting_deliver (h : Broadcasting a k n s) (hwire : s.channel src dst = l :: ls)
    (hl : l.id = k) : ∃ n' < n, Broadcasting a k n' (s.step (.deliver src dst)) := by
  have hcons := Service.about_channel_cons hwire hl
  cases h with
  | asked h hn =>
    obtain ⟨rfl, rfl, rfl⟩ := h.cases hcons
    have hstaged := h.deliver hl hwire (f := fun b => .plain (.send dst b k)) rfl
      fun _ => .inr ⟨rfl, rfl⟩
    refine ⟨_, ?_, .spread _ hstaged (fun b hb => .inl (if_pos hb)) rfl⟩
    rw [hn, Stage.total_all]
    simp [Stage.weight]
  | spread stage h hstage hn =>
    obtain ⟨b, next, hb, hturn, hstaged, -⟩ := staged_deliver h hwire hl
    have htotal := Stage.total_update stage hb next
    have hhand : stage b = .award ∧ next = .handled := by
      obtain hb' | hb' := hstage b hb <;> rw [hb'] at hturn <;> cases hturn
      exact ⟨hb', rfl⟩
    obtain ⟨haward, rfl⟩ := hhand
    rw [haward] at htotal
    change _ + 1 = _ + 0 at htotal
    refine ⟨_, by omega, .spread _ hstaged ?_ rfl⟩
    intro c hc
    by_cases hcb : c = b
    · rw [hcb, Function.update_self]
      exact .inr rfl
    · rw [Function.update_of_ne hcb]
      exact hstage c hc

/-- A broadcast is under way for no more deliveries than it has copies. -/
theorem countsDown_broadcasting (ids : List UInt16) (a : UInt8) (k : UInt16) :
    CountsDown Service.step (Service.Listed ids k) (Service.Concerns k) (Broadcasting a k) := by
  intro n s i hi h
  cases i with
  | client req sender receiver =>
    exact ⟨n, broadcasting_congr h (Service.about_client req hi.2), Nat.le_refl n, False.elim⟩
  | deliver src dst =>
    by_cases hk : s.Concerns k (.deliver src dst)
    · obtain ⟨l, ls, hwire, hl⟩ := Service.exists_of_concerns hk
      obtain ⟨n', hlt, hn'⟩ := broadcasting_deliver h hwire hl
      exact ⟨n', hn', Nat.le_of_lt hlt, fun _ => hlt⟩
    · exact ⟨n, broadcasting_congr h (Service.about_deliver_of_not hk), Nat.le_refl n,
        fun hyes => absurd hyes hk⟩

/-- No node but the neighbours ever gives the message to an app, and these do so once. -/
theorem Broadcasting.handled_le (h : Broadcasting a k n s) (b : UInt8) :
    (s.state b).handled.count k ≤ if Adjacent a b then 1 else 0 := by
  cases h with
  | asked h hn => exact (h.state b).trans_le (Nat.zero_le _)
  | spread stage h hstage hn =>
    refine (h.state b).trans_le ?_
    by_cases hb : Adjacent a b
    · rw [if_pos hb]
      cases stage b <;> decide
    · rw [if_neg hb, h.outside b hb]
      exact Nat.le_refl 0

/-- In the end they all have. -/
theorem Broadcasting.handled (h : Broadcasting a k 0 s) (b : UInt8) :
    (s.state b).handled.count k = if Adjacent a b then 1 else 0 := by
  cases h with
  | asked h hn => omega
  | spread stage h hstage hn =>
    refine (h.state b).trans ?_
    by_cases hb : Adjacent a b
    · rw [if_pos hb]
      obtain hb' | hb' := hstage b hb
      · have := Stage.weight_le_total stage hb
        rw [hb', ← hn] at this
        exact absurd this (by decide)
      · rw [hb']
        rfl
    · rw [if_neg hb, h.outside b hb]
      rfl

/-- The end has come when nothing of the broadcast is under way. -/
theorem Broadcasting.eq_zero (h : Broadcasting a k n s) (hclear : s.Clear k) : n = 0 := by
  cases h with
  | asked h hn =>
    have hmem : Letter.broadcast a k ∈ (s.about k).channel .server a := by
      simp [h.channel]
    exact absurd rfl (hclear _ _ _ (Service.mem_about.mp hmem).1)
  | spread stage h hstage hn =>
    rw [hn]
    refine Stage.total_eq_zero fun b hb => ?_
    obtain haward | hhandled := hstage b hb
    · exact absurd haward (h.not_under_way hclear hb).2.2
    · rw [hhandled]
      rfl

/-! ## Unicasts -/

theorem room_client {req : Request} {sender receiver : UInt8} (h : s.Room ids)
    (hid : s.nextId ∈ ids) : (s.step (.client req sender receiver)).Room ids := by
  refine ⟨?_, h.tables⟩
  intro src b l hl
  simp only [Service.step] at hl
  split at hl
  · obtain hold | ⟨-, hnew⟩ := mem_post.mp hl
    · exact h.letters src b l hold
    · rw [(Prod.mk.inj (List.mem_singleton.mp hnew)).2, Service.id_request]
      exact hid
  · exact h.letters src b l hl

theorem room_deliver (h : s.Room ids) (hfew : ids.length ≤ maxMessageData) (src : Peer)
    (dst : UInt8) : (s.step (.deliver src dst)).Room ids := by
  cases hwire : s.channel src dst with
  | nil =>
    have hsame : (s.step (.deliver src dst)).toParties = s.toParties :=
      Parties.deliver_nil hwire
    exact ⟨hsame ▸ h.letters, hsame ▸ h.tables⟩
  | cons l ls =>
    have hl : l.id ∈ ids := h.letters src dst l (hwire ▸ List.mem_cons_self)
    obtain ⟨hout, -, hmessages⟩ := Core.deals_serve dst src (s.state dst) l
    constructor
    · intro x b m hm
      obtain hold | ⟨-, hnew⟩ := Parties.mem_channel_deliver hwire hm
      · exact h.letters x b m hold
      · rw [hout _ hnew]
        exact hl
    · refine Parties.forall_state_deliver hwire (P := fun _ c => c.messages.Within ids) ?_ h.tables
      obtain heq | hmarked := hmessages
      · rw [heq]
        exact h.tables dst
      · exact (h.tables dst).marked hl hfew hmarked

/-- What is delivered of other messages leaves what nodes know of this one. -/
theorem lookup_deliver_of_not (h : s.Room ids) (hfew : ids.length ≤ maxMessageData)
    (hk : ¬ s.Concerns k (.deliver src dst)) (a : UInt8) :
    ((s.step (.deliver src dst)).state a).messages.lookup k = (s.state a).messages.lookup k := by
  cases hwire : s.channel src dst with
  | nil =>
    have hsame : (s.step (.deliver src dst)).toParties = s.toParties :=
      Parties.deliver_nil hwire
    rw [hsame]
  | cons l ls =>
    rw [Service.concerns_deliver hwire] at hk
    have hl : l.id ∈ ids := h.letters src dst l (hwire ▸ List.mem_cons_self)
    rw [Service.state_deliver hwire]
    by_cases ha : a = dst
    · rw [ha, Function.update_self, Core.lookup_serve hk ((h.tables dst).not_wraps hl hfew)]
    · rw [Function.update_of_ne ha]

theorem contesting_congr {s' : Service} (h : Contesting a k n s)
    (habout : s'.about k = s.about k) (hknows : s'.Knows k a ↔ s.Knows k a) :
    Contesting a k n s' := by
  cases h with
  | asked h hnew hn => exact .asked (habout ▸ h) (mt hknows.mp hnew) hn
  | held stage h hnew hstage hn => exact .held stage (habout ▸ h) (mt hknows.mp hnew) hstage hn
  | won stage h hknown w hw hwon hlost hn =>
    exact .won stage (habout ▸ h) (hknows.mpr hknown) w hw hwon hlost hn

theorem contesting_deliver (h : Contesting a k n s) (hwire : s.channel src dst = l :: ls)
    (hl : l.id = k) : ∃ n' < n, Contesting a k n' (s.step (.deliver src dst)) := by
  have hcons := Service.about_channel_cons hwire hl
  cases h with
  | asked h hnew hn =>
    obtain ⟨rfl, rfl, rfl⟩ := h.cases hcons
    have hstaged := h.deliver hl hwire (f := fun _ => .contest dst k)
      rfl fun _ => .inl ⟨rfl, rfl⟩
    have hknows : ¬ (s.step (.deliver .server dst)).Knows k dst := by
      rw [Service.Knows, Service.state_deliver hwire, Function.update_self]
      exact hnew
    refine ⟨_, ?_, .held _ hstaged hknows (fun b hb => .inl (if_pos hb)) rfl⟩
    rw [hn, Stage.total_all]
    simp only [Stage.weight]
    omega
  | held stage h hnew hstage hn =>
    obtain ⟨b, next, hb, hturn, hstaged, hknows⟩ := staged_deliver h hwire hl
    have htotal := Stage.total_update stage hb next
    obtain hb' | hb' := hstage b hb
    · -- One more neighbour answers.
      rw [hb'] at hturn hknows htotal
      cases hturn
      change _ + 2 = _ + 1 at htotal
      refine ⟨_, by omega, .held _ hstaged (by simpa [hknows] using hnew) ?_ rfl⟩
      intro c hc
      by_cases hcb : c = b
      · rw [hcb, Function.update_self]
        exact .inr rfl
      · rw [Function.update_of_ne hcb]
        exact hstage c hc
    · -- The first answer is in.
      rw [hb'] at hturn hknows htotal
      cases hturn with
      | win _ =>
        change _ + 1 = _ + 1 at htotal
        refine ⟨_, by omega, .won _ hstaged (hknows.mpr (.inr rfl)) b hb ?_ ?_ rfl⟩
        · rw [Function.update_self]
          exact .inl rfl
        · intro c hc hcb
          rw [Function.update_of_ne hcb]
          exact (hstage c hc).imp_right .inl
      | lose hknown => exact absurd hknown hnew
  | won stage h hknown w hw hwon hlost hn =>
    obtain ⟨b, next, hb, hturn, hstaged, hknows⟩ := staged_deliver h hwire hl
    have hknown' := hknows.mpr (.inl hknown)
    have htotal := Stage.total_update stage hb next
    by_cases hbw : b = w
    · subst hbw
      have hhand : stage b = .award ∧ next = .handled := by
        obtain hb' | hb' := hwon <;> rw [hb'] at hturn <;> cases hturn
        exact ⟨hb', rfl⟩
      obtain ⟨haward, rfl⟩ := hhand
      rw [haward] at htotal
      change _ + 1 = _ + 0 at htotal
      refine ⟨_, by omega, .won _ hstaged hknown' b hb ?_ ?_ rfl⟩
      · rw [Function.update_self]
        exact .inr rfl
      · intro c hc hcb
        rw [Function.update_of_ne hcb]
        exact hlost c hc hcb
    · have hother : (stage b = .contest ∧ next = .answered ∨
          stage b = .answered ∧ next = .idle) := by
        obtain hb' | hb' | hb' := hlost b hb hbw <;> rw [hb'] at hturn
        · cases hturn
          exact .inl ⟨hb', rfl⟩
        · cases hturn with
          | win hnew => exact absurd hknown hnew
          | lose _ => exact .inr ⟨hb', rfl⟩
        · cases hturn
      have hlt : Stage.total a (Function.update stage b next) < n := by
        obtain ⟨hb', rfl⟩ | ⟨hb', rfl⟩ := hother <;> rw [hb'] at htotal
        · change _ + 2 = _ + 1 at htotal
          omega
        · change _ + 1 = _ + 0 at htotal
          omega
      refine ⟨_, hlt, .won _ hstaged hknown' w hw ?_ ?_ rfl⟩
      · rwa [Function.update_of_ne (Ne.symm hbw)]
      · intro c hc hcw
        by_cases hcb : c = b
        · rw [hcb, Function.update_self]
          obtain ⟨-, rfl⟩ | ⟨-, rfl⟩ := hother
          · exact .inr (.inl rfl)
          · exact .inr (.inr rfl)
        · rw [Function.update_of_ne hcb]
          exact hlost c hc hcw

/-- A unicast is under way for no more deliveries than it has invitations, answers and awards. -/
theorem countsDown_contesting (ids : List UInt16) (a : UInt8) (k : UInt16)
    (hfew : ids.length ≤ maxMessageData) :
    CountsDown Service.step (Service.Listed ids k) (Service.Concerns k)
      fun n s => Contesting a k n s ∧ s.Room ids := by
  rintro n s i hi ⟨h, hroom⟩
  cases i with
  | client req sender receiver =>
    exact ⟨n, ⟨contesting_congr h (Service.about_client req hi.2) Iff.rfl,
      room_client hroom hi.1⟩, Nat.le_refl n, False.elim⟩
  | deliver src dst =>
    have hroom' := room_deliver hroom hfew src dst
    by_cases hk : s.Concerns k (.deliver src dst)
    · obtain ⟨l, ls, hwire, hl⟩ := Service.exists_of_concerns hk
      obtain ⟨n', hlt, hn'⟩ := contesting_deliver h hwire hl
      exact ⟨n', ⟨hn', hroom'⟩, Nat.le_of_lt hlt, fun _ => hlt⟩
    · exact ⟨n, ⟨contesting_congr h (Service.about_deliver_of_not hk)
        (by rw [Service.Knows, lookup_deliver_of_not hroom hfew hk, Service.Knows]), hroom'⟩,
        Nat.le_refl n, fun hyes => absurd hyes hk⟩

/-- At most one node gives the message to an app, once, and it is a neighbour. In the end it has. -/
theorem Contesting.handled (h : Contesting a k n s) (ha : InMesh a) :
    ∃ w, Adjacent a w ∧ (s.state w).handled.count k ≤ 1 ∧
      (∀ b, b ≠ w → (s.state b).handled.count k = 0) ∧
      (n = 0 → (s.state w).handled.count k = 1) := by
  obtain ⟨first, hfirst⟩ := exists_adjacent ha
  cases h with
  | asked h hnew hn =>
    have hcount : ∀ b, (s.state b).handled.count k = 0 := h.state
    exact ⟨first, hfirst, by simp [hcount], fun b _ => hcount b, by omega⟩
  | held stage h hnew hstage hn =>
    have hcount : ∀ b, (s.state b).handled.count k = 0 := by
      intro b
      refine (h.state b).trans ?_
      by_cases hb : Adjacent a b
      · obtain hb' | hb' := hstage b hb <;> rw [hb'] <;> rfl
      · rw [h.outside b hb]
        rfl
    exact ⟨first, hfirst, by simp [hcount], fun b _ => hcount b, by omega⟩
  | won stage h hknown w hw hwon hlost hn =>
    have hcount : (s.state w).handled.count k = (stage w).handed := h.state w
    refine ⟨w, hw, ?_, ?_, ?_⟩
    · rw [hcount]
      cases stage w <;> decide
    · intro b hbw
      refine (h.state b).trans ?_
      by_cases hb : Adjacent a b
      · obtain hb' | hb' | hb' := hlost b hb hbw <;> rw [hb'] <;> rfl
      · rw [h.outside b hb]
        rfl
    · intro hzero
      have hweight := Stage.weight_le_total stage hw
      rw [← hn, hzero] at hweight
      rw [hcount]
      obtain hb | hb := hwon <;> rw [hb] at hweight ⊢
      · exact absurd hweight (by decide)
      · rfl

/-- The end has come when nothing of the unicast is under way. -/
theorem Contesting.eq_zero (h : Contesting a k n s) (ha : InMesh a) (hclear : s.Clear k) :
    n = 0 := by
  cases h with
  | asked h hnew hn =>
    have hmem : Letter.unicast a k ∈ (s.about k).channel .server a := by
      simp [h.channel]
    exact absurd rfl (hclear _ _ _ (Service.mem_about.mp hmem).1)
  | held stage h hnew hstage hn =>
    obtain ⟨first, hfirst⟩ := exists_adjacent ha
    have hnone := h.not_under_way hclear hfirst
    obtain hb | hb := hstage first hfirst
    · exact absurd hb hnone.1
    · exact absurd hb hnone.2.1
  | won stage h hknown w hw hwon hlost hn =>
    rw [hn]
    refine Stage.total_eq_zero fun b hb => ?_
    have hnone := h.not_under_way hclear hb
    cases hstage : stage b <;> simp_all [Stage.weight]

end MeshNet
