import MeshNet.Mesh.Delivery
import MeshNet.Mesh.Echo
import MeshNet.Mesh.Flood

/-!
# How much a flood costs

A node sends the packets of a flood on once, and the one that has started the flood does so twice
at most. So no connection carries more than two packets of one flood.
-/

namespace MeshNet
open Library
open Mesh (asks)

/-- A packet of a flood for the message `k`. -/
def Letter.isDirect (k : UInt16) : Letter → Bool
  | .plain (.direct _ _ _ id) => id == k
  | _ => false

namespace Service

/-- The packets of the flood on the connection from node `a` to node `b`. -/
def copies (a b : UInt8) (k : UInt16) (s : Service) : Nat :=
  (s.channel (.node a) b).countP (Letter.isDirect k)

/-- The connection from node `a` to node `b` delivers a packet of the flood. -/
def Carries (a b : UInt8) (k : UInt16) (s : Service) : Label → Prop
  | .client .. => False
  | .deliver src dst => src = .node a ∧ dst = b ∧
    ∃ l ∈ (s.channel src dst).head?, l.isDirect k = true

end Service

namespace Mesh

/-- The frame is a packet of the flood for the message `k`. -/
def Floods (k : UInt16) (f : Flight (List UInt8)) : Prop :=
  ∃ r ∈ routed? (.zeroed .ideal, f.packet), r.1 = .routeDirect ∧ r.2.appPayload.id = k

/-- The connection from node `a` to node `b` delivers a packet of the flood. -/
def Carries (a b : UInt8) (k : UInt16) (m : Mesh) : Call → Prop
  | .deliver src (.node c) _ _ =>
    src = .node a ∧ c = b ∧ ∃ f ∈ (m.wire src (.node c)).head?, Floods k f
  | _ => False

instance (k : UInt16) (f : Flight (List UInt8)) : Decidable (Floods k f) :=
  inferInstanceAs (Decidable (∃ r ∈ routed? (.zeroed .ideal, f.packet), _))

instance (a b : UInt8) (k : UInt16) (m : Mesh) (i : Call) : Decidable (m.Carries a b k i) :=
  match i with
  | .deliver src (.node c) _ _ =>
    inferInstanceAs (Decidable (src = .node a ∧ c = b ∧
      ∃ f ∈ (m.wire src (.node c)).head?, Floods k f))
  | .deliver _ .server _ _ => isFalse id
  | .client .. => isFalse id

end Mesh

/-- The message is on its way along routes, or was flooded: then `n` counts the packets on the
connection from node `a` to node `b`, and one more as long as `a` has not sent it on. -/
inductive Traffic (sender receiver : UInt8) (k : UInt16) (a b : UInt8) : Nat → Service → Prop
  | travelling {s : Service} (src : Peer) (c : UInt8)
      (hchannel : ∀ x d, (s.about k).channel x d =
        if x = src ∧ d = c then [.plain (.send sender receiver k)] else []) :
      Traffic sender receiver k a b 2 s
  | arrived {s : Service} (hchannel : ∀ x d, (s.about k).channel x d = []) :
      Traffic sender receiver k a b 0 s
  | flooded {s : Service} {n : Nat}
      (hchannel : ∀ x d, ∀ l ∈ (s.about k).channel x d, ∃ msg, l = .plain msg ∧
        msg.OfFlood sender receiver k)
      (hn : n = s.copies a b k + if (s.state a).messages.Taken k then 0 else 1) :
      Traffic sender receiver k a b n s

variable {sender receiver a b dst addr : UInt8} {src : Peer} {k id : UInt16} {timeToLive : Int8}
  {l : Letter} {ls : List Letter} {s s' : Service} {ids : List UInt16} {c : Core} {n : Nat}
  {msg : Msg} {out : List (UInt8 × Msg)}

/-! ## What a node sends on -/

/-- The packets of the flood that are sent to node `b`. -/
def sentOn (b : UInt8) (k : UInt16) (out : List (UInt8 × Letter)) : Nat :=
  (out.filterMap fun o => if o.1 = b then some o.2 else none).countP (Letter.isDirect k)

@[simp] theorem sentOn_nil : sentOn b k [] = 0 := rfl

theorem sentOn_eq_zero {out : List (UInt8 × Letter)}
    (h : ∀ o ∈ out, o.2.isDirect k = false) : sentOn b k out = 0 := by
  refine List.countP_eq_zero.mpr fun l hl => ?_
  obtain ⟨o, ho, heq⟩ := List.mem_filterMap.mp hl
  split at heq
  · cases heq
    simp [h o ho]
  · cases heq

/-- A flood goes to each neighbour once. -/
theorem sentOn_flood_le :
    sentOn b k ((Core.flood addr sender receiver timeToLive id).map
      fun o => (o.1, .plain o.2)) ≤ 1 := by
  have hmap : (Core.flood addr sender receiver timeToLive id).map
      (fun o => (o.1, Letter.plain o.2)) =
        (neighbours addr).map fun d =>
          (d, .plain (.direct sender receiver (timeToLive - 1) id)) := by
    rw [Core.flood, neighbours, List.map_map, List.map_map]
    rfl
  let letter : Letter := .plain (.direct sender receiver (timeToLive - 1) id)
  have heach : post addr ((neighbours addr).map fun d => (d, letter)) (fun _ _ => []) addr b =
      [] ++ if b ∈ neighbours addr then [letter] else [] := post_each (nodup_neighbours addr) _
  rw [post_self, List.nil_append, List.nil_append] at heach
  rw [hmap, sentOn, heach]
  refine (List.countP_le_length).trans ?_
  split
  · exact Nat.le_refl 1
  · exact Nat.zero_le 1

theorem sentOn_deliver :
    sentOn b k ((c.deliver sender receiver id).2.map fun o => (o.1, .plain o.2)) = 0 := by
  refine sentOn_eq_zero fun o ho => ?_
  obtain ⟨o, ho', rfl⟩ := List.mem_map.mp ho
  obtain ⟨-, heq⟩ | ⟨-, -, heq⟩ | ⟨-, -, heq⟩ := Core.deliver_cases c sender receiver id <;>
    rw [heq] at ho'
  · cases ho'
  · cases ho'
  · rw [List.mem_singleton.mp ho']
    rfl

/-- After a node has taken the message in, the message stays taken. -/
theorem taken_deliver (h : c.messages.Taken k) :
    (c.deliver sender receiver k).1.messages.Taken k := by
  obtain ⟨-, heq⟩ | ⟨-, -, heq⟩ | ⟨-, -, heq⟩ := Core.deliver_cases c sender receiver k <;> rw [heq]
  · exact h
  · exact taken_answer h
  · exact taken_answer h

/-- A node that has not sent the flood on may do so once, and not again. -/
theorem sentOn_direct (addr x : UInt8) (c : Core) :
    sentOn b k ((c.direct addr x sender receiver timeToLive k).2.map fun o => (o.1, .plain o.2)) +
        (if (c.direct addr x sender receiver timeToLive k).1.messages.Taken k then 0 else 1) ≤
      if c.messages.Taken k then 0 else 1 := by
  obtain ⟨-, heq⟩ | ⟨-, htaken, -, heq⟩ | ⟨-, htaken, -, heq⟩ :=
    Core.direct_cases addr c x sender receiver timeToLive k
  · rw [heq, List.map_nil, sentOn_nil, Nat.zero_add]
  · rw [heq, sentOn_deliver, if_pos (taken_deliver taken_takeIn), if_neg htaken]
    exact Nat.zero_le 1
  · rw [heq, if_pos taken_takeIn, if_neg htaken]
    exact sentOn_flood_le

/-- Who sends a packet of the flood on has not done so before, and does not do so again. -/
theorem sentOn_react (addr x : UInt8) (c : Core) (hmsg : msg.OfFlood sender receiver k) :
    sentOn b k ((c.react addr x msg).2.map fun o => (o.1, .plain o.2)) +
        (if (c.react addr x msg).1.messages.Taken k then 0 else 1) ≤
      if c.messages.Taken k then 0 else 1 := by
  obtain ⟨timeToLive, rfl | rfl⟩ := hmsg
  · exact sentOn_direct addr x c
  · have hnone : sentOn b k ((c.inverse addr x sender receiver timeToLive k).2.map
        fun o => (o.1, .plain o.2)) = 0 := by
      refine sentOn_eq_zero fun o ho => ?_
      obtain ⟨o, ho', rfl⟩ := List.mem_map.mp ho
      obtain ⟨-, heq⟩ | ⟨-, -, heq⟩ :=
        Core.inverse_cases addr c x sender receiver timeToLive k <;> rw [heq] at ho'
      · cases ho'
      · rw [List.mem_singleton.mp ho']
        rfl
    have hsame : (c.inverse addr x sender receiver timeToLive k).1.messages = c.messages := by
      obtain ⟨-, heq⟩ | ⟨-, -, heq⟩ :=
        Core.inverse_cases addr c x sender receiver timeToLive k <;> rw [heq] <;> rfl
    rw [Core.react, hnone, hsame, Nat.zero_add]

/-! ## Step by step -/

theorem isDirect_of_ne (hl : l.id ≠ k) : l.isDirect k = false := by
  cases l with
  | plain msg => cases msg <;> simp_all [Letter.isDirect, Letter.id, Msg.id]
  | broadcast | unicast | contest | first => rfl

/-- The packets of the flood are of the message. -/
theorem copies_about : s.copies a b k =
    ((s.about k).channel (.node a) b).countP (Letter.isDirect k) := by
  have hfilter : (s.about k).channel (.node a) b =
      (s.channel (.node a) b).filter fun l => l.id == k := rfl
  rw [Service.copies, hfilter, List.countP_filter]
  refine List.countP_congr fun l _ => ?_
  by_cases hl : l.id = k
  · simp [hl]
  · simp [isDirect_of_ne hl]

theorem copies_deliver (hwire : s.channel src dst = l :: ls) :
    (s.step (.deliver src dst)).copies a b k +
        (if (.node a = src ∧ b = dst) ∧ l.isDirect k = true then 1 else 0) =
      s.copies a b k +
        if a = dst then sentOn b k (Core.serve dst src (s.state dst) l).2 else 0 := by
  have hcount : (((s.step (.deliver src dst)).channel (.node a) b).countP (Letter.isDirect k)) +
      (if (.node a = src ∧ b = dst) ∧ l.isDirect k = true then 1 else 0) =
      (s.channel (.node a) b).countP (Letter.isDirect k) +
        if .node a = Peer.node dst then sentOn b k (Core.serve dst src (s.state dst) l).2 else 0 :=
    Parties.countP_deliver (Letter.isDirect k) hwire
  simp only [Peer.node.injEq] at hcount
  exact hcount

theorem traffic_congr (h : Traffic sender receiver k a b n s) (habout : s'.about k = s.about k)
    (hlookup : (s'.state a).messages.lookup k = (s.state a).messages.lookup k) :
    Traffic sender receiver k a b n s' := by
  cases h with
  | travelling src c hchannel => exact .travelling src c (habout ▸ hchannel)
  | arrived hchannel => exact .arrived (habout ▸ hchannel)
  | flooded hchannel hn =>
    have htaken : (s'.state a).messages.Taken k ↔ (s.state a).messages.Taken k := by
      unfold MessageTable.Taken
      rw [hlookup]
    refine .flooded (habout ▸ hchannel) ?_
    rw [hn, copies_about, copies_about, habout]
    simp only [htaken]

/-- The one who has the message hands it on. -/
theorem traffic_travelling
    (hchannel : ∀ x d, (s.about k).channel x d =
      if x = src ∧ d = dst then [.plain (.send sender receiver k)] else [])
    (hwire : s.channel src dst = .plain (.send sender receiver k) :: ls) :
    ∃ n ≤ 2, Traffic sender receiver k a b n (s.step (.deliver src dst)) := by
  have habout := Service.about_deliver (k := k) hwire rfl
  have hcopies := copies_deliver (a := a) (b := b) (k := k) hwire
  have hpull : ∀ x d, pull src dst (s.about k).channel x d = [] := by
    intro x d
    rw [pull_eq, hchannel]
    split <;> simp_all
  have hnone : s.copies a b k = 0 := by
    rw [copies_about, hchannel]
    split <;> simp [Letter.isDirect]
  rw [Core.serve_plain, Core.react] at habout hcopies
  obtain ⟨rfl, heq⟩ | ⟨-, -, heq⟩ | ⟨-, -, heq⟩ :=
    Core.send_cases dst (s.state dst) sender receiver k <;>
    rw [heq] at habout hcopies
  · refine ⟨0, Nat.zero_le 2, .arrived fun x d => ?_⟩
    rw [habout]
    simp [hpull]
  · refine ⟨_, ?_, .flooded (fun x d l hl => ?_) rfl⟩
    · have hsent : (if a = dst then sentOn b k ((Core.flood dst sender receiver ttl k).map
          fun o => (o.1, .plain o.2)) else 0) ≤ 1 := by
        split
        · exact sentOn_flood_le
        · exact Nat.zero_le 1
      have hallowed : (if ((s.step (.deliver src dst)).state a).messages.Taken k then 0 else 1) ≤
          1 := by
        split <;> omega
      dsimp only at hcopies
      omega
    · rw [habout] at hl
      obtain hold | ⟨-, hnew⟩ := mem_post.mp hl
      · rw [hpull] at hold
        cases hold
      · obtain ⟨o, ho, heq⟩ := List.mem_map.mp hnew
        obtain ⟨-, rfl⟩ := Prod.mk.inj heq
        exact ⟨o.2, rfl, ofFlood_flood ho⟩
  · refine ⟨2, Nat.le_refl 2, .travelling (.node dst) ((s.state dst).routing.nextAddr receiver)
      fun x d => ?_⟩
    rw [habout]
    simp [post_singleton, hpull]

/-- With each packet of the flood that the connection delivers, fewer are left. -/
theorem traffic_deliver (h : Traffic sender receiver k a b n s)
    (hwire : s.channel src dst = l :: ls) (hl : l.id = k) :
    ∃ n' ≤ n, Traffic sender receiver k a b n' (s.step (.deliver src dst)) ∧
      (s.Carries a b k (.deliver src dst) → n' < n) := by
  have hcons := Service.about_channel_cons hwire hl
  cases h with
  | travelling src' c hchannel =>
    have hhead := hcons
    rw [hchannel] at hhead
    split at hhead
    · rename_i hhere
      obtain ⟨rfl, rfl⟩ := hhere
      obtain ⟨rfl, -⟩ := List.cons.inj hhead
      obtain ⟨n', hle, hn'⟩ := traffic_travelling (a := a) (b := b) hchannel hwire
      refine ⟨n', hle, hn', ?_⟩
      rintro ⟨-, -, l, hl, hdirect⟩
      rw [hwire] at hl
      cases hl
      cases hdirect
    · cases hhead
  | arrived hchannel =>
    rw [hchannel] at hcons
    cases hcons
  | flooded hchannel hn =>
    obtain ⟨msg, rfl, hmsg⟩ := hchannel src dst l (hcons ▸ List.mem_cons_self)
    have habout := Service.about_deliver hwire hl
    have hnext := Service.state_deliver hwire
    have hcopies := copies_deliver (a := a) (b := b) (k := k) hwire
    have hreact := sentOn_react (b := b) dst src.addr (s.state dst) hmsg
    rw [Core.serve_plain] at habout hnext hcopies
    have hafter : (s.step (.deliver src dst)).copies a b k +
        (if ((s.step (.deliver src dst)).state a).messages.Taken k then 0 else 1) +
        (if (.node a = src ∧ b = dst) ∧ (Letter.plain msg).isDirect k = true then 1 else 0) ≤
          n := by
      rw [hn, hnext]
      by_cases ha : a = dst
      · subst ha
        rw [if_pos rfl] at hcopies
        rw [Function.update_self]
        dsimp only at hcopies ⊢
        omega
      · rw [if_neg ha] at hcopies
        rw [Function.update_of_ne ha]
        omega
    refine ⟨_, by omega, .flooded (fun x d l hl => ?_) rfl, ?_⟩
    · rw [habout] at hl
      obtain hold | ⟨-, hnew⟩ := mem_post.mp hl
      · exact hchannel x d l (mem_of_mem_pull hold)
      · obtain ⟨o, ho, heq⟩ := List.mem_map.mp hnew
        obtain ⟨-, rfl⟩ := Prod.mk.inj heq
        exact ⟨o.2, rfl, ofFlood_react hmsg ho⟩
    · rintro ⟨hsrc, hdst, l, hl, hdirect⟩
      rw [hwire] at hl
      cases hl
      have hone : (if (.node a = src ∧ b = dst) ∧ (Letter.plain msg).isDirect k = true
          then 1 else 0) = 1 := if_pos ⟨⟨hsrc.symm, hdst.symm⟩, hdirect⟩
      omega

/-- Whatever happens besides, the connection carries no more packets of the flood than are left. -/
theorem countsDown_traffic (ids : List UInt16) (sender receiver : UInt8) (k : UInt16) (a b : UInt8)
    (hfew : ids.length ≤ maxMessageData) :
    CountsDown Service.step (Service.Listed ids k) (Service.Carries a b k)
      fun n s => Traffic sender receiver k a b n s ∧ s.Room ids := by
  rintro n s i hi ⟨h, hroom⟩
  cases i with
  | client req sender receiver =>
    exact ⟨n, ⟨traffic_congr h (Service.about_client req hi.2) rfl, room_client hroom hi.1⟩,
      Nat.le_refl n, False.elim⟩
  | deliver src dst =>
    have hroom' := room_deliver hroom hfew src dst
    by_cases hk : s.Concerns k (.deliver src dst)
    · obtain ⟨l, ls, hwire, hl⟩ := Service.exists_of_concerns hk
      obtain ⟨n', hle, hn', hlt⟩ := traffic_deliver h hwire hl
      exact ⟨n', ⟨hn', hroom'⟩, hle, hlt⟩
    · refine ⟨n, ⟨traffic_congr h (Service.about_deliver_of_not hk)
        (lookup_deliver_of_not hroom hfew hk a), hroom'⟩, Nat.le_refl n, ?_⟩
      rintro ⟨-, -, l, hl, hdirect⟩
      refine absurd ⟨l, hl, ?_⟩ hk
      by_contra hne
      rw [isDirect_of_ne hne] at hdirect
      cases hdirect

/-! ## On the mesh -/

variable {m : Mesh} {children : List Child} {i : Mesh.Call} {pids : UInt8 → Int32}
  {fds : UInt8 ↪ Int} {z : Zlib} {before after : List Mesh.Call} {fd : Int} {packet : NodePacket}
  {senv : ServerEnv}

theorem floods_letterOf {bytes : List UInt8} {hops : Nat} (h : LetterOf (.node a) bytes l) :
    Mesh.Floods k ⟨bytes, hops⟩ ↔ l.isDirect k = true := by
  unfold Mesh.Floods
  cases h with
  | plain h =>
    cases h with
    | send hq buf =>
      have hsend : Request.send.layout = some .packet := rfl
      rw [routed?_packet hsend hq.fits]
      simp [Letter.isDirect]
    | direct hq hlocal buf =>
      have hdirect : Request.routeDirect.layout = some .packet := rfl
      rw [routed?_packet hdirect hq.fits]
      simp [Letter.isDirect, NodePacket.received, AppPayload.received]
    | inverse hq hlocal buf =>
      have hinverse : Request.routeInverse.layout = some .packet := rfl
      rw [routed?_packet hinverse hq.fits]
      simp [Letter.isDirect]
  | contest hc haddr buf =>
    have hcontest : Request.unicastContest.layout = some .contest := rfl
    simp [routed?, receive_contest hcontest hc, Letter.isDirect]
  | first hc haddr buf =>
    have hfirst : Request.unicastFirst.layout = some .contest := rfl
    simp [routed?, receive_contest hfirst hc, Letter.isDirect]

theorem Offers.exists_carries (h : Offers children m s) (hi : m.Carries a b k i) :
    ∃ j, i.service = some j ∧ s.Carries a b k j := by
  cases i with
  | client => exact hi.elim
  | deliver src dst env senv =>
    cases dst with
    | server => exact hi.elim
    | node c =>
      obtain ⟨rfl, rfl, f, hf, hfloods⟩ := hi
      have hwire := h.wire (.node a) c
      obtain ⟨fs, hfs⟩ := List.head?_eq_some_iff.mp hf
      rw [hfs, List.forall₂_cons_left_iff] at hwire
      obtain ⟨l, ls, hletter, -, hchannel⟩ := hwire
      refine ⟨.deliver (.node a) c, rfl, rfl, rfl, l, ?_, (floods_letterOf hletter).mp hfloods⟩
      rw [hchannel]
      rfl

/-- Nothing was flooded yet of a message that was just asked for. -/
theorem traffic_client (sender receiver : UInt8) (h : s.Issued id n) (hn : n < 65536)
    (a b : UInt8) :
    ∃ l ≤ 2, Traffic sender receiver (id + UInt16.ofNat n) a b l
      (s.step (.client .send sender receiver)) := by
  by_cases hs : InMesh sender
  · have hreq : Requested sender (Service.request .send sender receiver _) _ :=
      requested_client h hn hs .send
    exact ⟨2, Nat.le_refl 2, .travelling .server sender hreq.channel⟩
  · obtain ⟨hchannel, -⟩ := h.about hn
    rw [← h.nextId]
    have hsame : (s.step (.client .send sender receiver)).about s.nextId = s.about s.nextId := by
      simp [Service.about, Service.step, hs]
    exact ⟨0, Nat.zero_le 2, .arrived fun x d => hsame ▸ hchannel x d⟩

/-- No connection between nodes carries more than two packets of the flood for a message, whatever
happens besides. -/
theorem floods_le_two
    (h : ∀ i ∈ before ++ .client .send fd packet senv :: after, i.Healthy)
    (hfew : asks before + asks after < maxMessageData) (a b : UInt8) :
    countSteps (Mesh.call z) (Mesh.Carries a b (id + UInt16.ofNat (asks before)))
      (run (Mesh.call z) (Mesh.start pids fds id)
        (before ++ [.client .send fd packet senv])) after ≤ 2 := by
  obtain ⟨hbefore, hrest⟩ := List.forall_mem_append.mp h
  obtain ⟨hask, hafter⟩ := List.forall_mem_cons.mp hrest
  have hsmall : maxMessageData ≤ 65536 := by decide
  obtain ⟨s, hissued, hoffers⟩ := exists_asked z pids fds id hbefore hask
  have hissued' : (s.step (.client .send packet.senderAddr packet.receiverAddr)).Issued id
      (asks before + 1) := issued_client hissued .send
  obtain ⟨l, hl, htraffic⟩ :=
    traffic_client packet.senderAddr packet.receiverAddr hissued (by omega) a b
  have hsteps := steps_listed (z := z) hafter ⟨_, hoffers, hissued'⟩ (Nat.lt_succ_self _)
    (by omega) hsmall
  have hdown := countsDown_traffic (issued id maxMessageData) packet.senderAddr packet.receiverAddr
    (id + UInt16.ofNat (asks before)) a b length_issued.le
  obtain ⟨n, -, hcount⟩ := (countsDown_call z pids fds id (fun _ _ _ => Offers.exists_carries)
    hdown).countSteps_le hsteps ⟨_, hoffers, htraffic, hissued'.room (by omega) (Nat.le_refl _)⟩
  rw [run_append, run_cons, run_nil]
  exact (Nat.le_add_right _ _).trans (hcount.trans hl)

theorem floods_le_two_amid :
    countSteps (Mesh.call .stored)
      (Mesh.Carries 5 6 (0 + UInt16.ofNat (asks [.ask .broadcast 4 0])))
      (run (Mesh.call .stored) (Mesh.start (fun _ => 0) Mesh.descriptors 0)
        ([.ask .broadcast 4 0] ++ [.ask .send 5 7])) [.hand .server 5] ≤ 2 := by
  have hhealthy := Mesh.Call.healthy_amid (.inl rfl)
  exact floods_le_two hhealthy (by decide) 5 6

end MeshNet
