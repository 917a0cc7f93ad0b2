import MeshNet.Mesh.Routes

/-!
# A flood

What comes of a single message. Every node but the receiver sends its first copy on to all of its
neighbours, and the answer goes back by the routes that the copies have left. The copies reach all
nodes as long as none of them gets its first copy with a time to live of one, which it sends on to
no effect.
-/

namespace MeshNet
open Library

variable {tables : UInt8 → RoutingTable} {x b a : UInt8} {k : Int8} {c : Core} {i : Int}

/-! ## What a node keeps of the message -/

section
variable (sender receiver : UInt8) (id : UInt16)

/-- The copies of the message and its answer, with what the tables know of their ways. -/
inductive EnRoute (tables : UInt8 → RoutingTable) (x b : UInt8) : Msg → Prop
  | direct {k : Int8} (hpos : 0 ≤ k.toInt) (hlt : k.toInt < ttl.toInt)
      (hback : Knows tables sender x (ttl.toInt - k.toInt)) :
      EnRoute tables x b (.direct sender receiver k id)
  | inverse {k : Int8} (hpos : 0 < k.toInt) (hle : k.toInt ≤ ttl.toInt)
      (hon : Knows tables sender b (k.toInt - 1)) :
      EnRoute tables x b (.inverse sender receiver k id)

/-- The receiver has handled the message once, or does not know of it. -/
def Core.Served (c : Core) : Prop :=
  c.messages.Taken id ∧ c.handled = [id] ∨ c.messages = .initial ∧ c.handled = []

/-- What the node `b` makes of a packet of the message: its new state and what it sends. -/
structure Relays (tables : UInt8 → RoutingTable) (b : UInt8) (c : Core)
    (r : Core × List (UInt8 × Msg)) : Prop where
  descending : Descending (Function.update tables b r.1.routing) sender
  knows : ∀ {d a i}, Knows tables d a i → Knows (Function.update tables b r.1.routing) d a i
  out : ∀ o ∈ r.2, EnRoute sender receiver id (Function.update tables b r.1.routing) b o.1 o.2
  taken : c.messages.Taken id → r.1.messages.Taken id
  spread : b ≠ sender → b ≠ receiver → r.1.messages.Taken id → c.messages.Taken id ∨
    ∀ a, Adjacent b a → ∃ k, 0 < k ∧ (a, Msg.direct sender receiver k id) ∈ r.2
  served : b = receiver → r.1.Served id
  answers : b = receiver → r.1.messages.Taken id → c.messages.Taken id ∨
    ∃ a k, (a, Msg.inverse sender receiver k id) ∈ r.2

end

/-- The node gets its first copy when it may not be sent on any more. -/
def Core.Starves (addr : UInt8) (c : Core) : Msg → Prop
  | .direct sender receiver timeToLive id =>
    timeToLive = 1 ∧ addr ≠ sender ∧ addr ≠ receiver ∧ ¬ c.messages.Taken id
  | _ => False

variable {sender receiver : UInt8} {id : UInt16}

theorem not_taken_initial : ¬ MessageTable.initial.Taken id :=
  not_taken_of_lookup MessageTable.lookup_initial

theorem entry_initial : MessageTable.initial.entry id = .clean id := by
  rw [MessageTable.entry, MessageTable.lookup_initial]
  rfl

theorem lookup_takeIn (c : Core) (x sender : UInt8) (k : Int8) (id : UInt16) :
    (c.takeIn x sender k id).messages.lookup id =
      some { c.messages.entry id with wasMessage := true } := by
  rw [Core.takeIn, MessageTable.lookup_setWasMessageById MessageTable.register_ne_none, if_pos rfl,
    MessageTable.lookup_register_self]
  rfl

theorem taken_takeIn : (c.takeIn x sender k id).messages.Taken id := by
  rw [MessageTable.Taken, lookup_takeIn]
  rfl

theorem not_answered_takeIn (h : c.messages = .initial) :
    ¬ (c.takeIn x sender k id).messages.Answered id := by
  rw [MessageTable.Answered, lookup_takeIn, h, entry_initial]
  simp [MessageData.clean]

theorem taken_answer (h : c.messages.Taken id) : (c.answer id).messages.Taken id := by
  have hknown := h.ne_none
  obtain ⟨m, hm⟩ := Option.ne_none_iff_exists'.mp hknown
  rw [MessageTable.Taken] at h ⊢
  rw [Core.answer, MessageTable.register_of_lookup hknown,
    MessageTable.lookup_setInverseById hknown, if_pos rfl]
  rw [hm] at h ⊢
  exact h

theorem mem_flood (hadj : Adjacent b a) :
    (a, Msg.direct sender receiver (k - 1) id) ∈ Core.flood b sender receiver k id :=
  List.mem_map.mpr ⟨nodePort a, hadj, by rw [nodeAddr_nodePort]⟩

/-- The receiver of a first copy answers it. -/
theorem deliver_of_initial (h : c.messages = .initial)
    (hroute : (c.takeIn x sender k id).routing.nextAddr sender ≠ noAddr) :
    (c.takeIn x sender k id).deliver sender receiver id =
      ({ (c.takeIn x sender k id).answer id with handled := c.handled ++ [id] },
        [((c.takeIn x sender k id).routing.nextAddr sender, .inverse sender receiver ttl id)]) := by
  obtain ⟨hanswered, -⟩ | ⟨-, hnone, -⟩ | ⟨-, -, heq⟩ :=
    Core.deliver_cases (c.takeIn x sender k id) sender receiver id
  · exact absurd hanswered (not_answered_takeIn h)
  · exact absurd hnone hroute
  · exact heq

/-! ## Packet by packet -/

/-- A node that does nothing. -/
theorem relays_silent (ht : Descending tables sender) (hcore : c.routing = tables b)
    (hserved : b = receiver → c.Served id) :
    Relays sender receiver id tables b c (c, []) where
  descending := (advances_same hcore).descending ht
  knows h := (advances_same hcore).knows h
  out := nofun
  taken h := h
  spread _ _ h := .inl h
  served := hserved
  answers _ h := .inl h

theorem learnDirect_eq (x sender : UInt8) (k : Int8) (id : UInt16) (hcore : c.routing = tables b) :
    (c.takeIn x sender k id).routing = (tables b).learnDirect sender x k := by
  rw [← hcore]
  rfl

/-- The receiver answers a first copy. -/
theorem relays_answer (ht : Descending tables sender) (hcore : c.routing = tables receiver)
    (hs : InMesh sender) (hx : InMesh x) (hpos : 0 < k) (hlt : k.toInt < ttl.toInt)
    (hback : Knows tables sender x (ttl.toInt - k.toInt)) (hserved : c.Served id)
    (htaken : ¬ c.messages.Taken id) (hne : receiver ≠ sender) :
    Relays sender receiver id tables receiver c
        ((c.takeIn x sender k id).deliver sender receiver id) ∧
      ((c.takeIn x sender k id).deliver sender receiver id).1.messages.Taken id := by
  obtain ⟨hadvances, hway⟩ := advances_takeIn receiver hs hx hpos hlt hback
  have hpos : 0 < k.toInt := Int8.lt_iff_toInt_lt.mp hpos
  obtain ⟨hinitial, hnone⟩ := hserved.resolve_left fun h => htaken h.1
  have hlearnt := learnDirect_eq x sender k id hcore
  obtain ⟨hroute, -, hnext⟩ := hway.hop (hadvances.descending ht) hne
  rw [Function.update_self] at hroute hnext
  rw [← hlearnt] at hadvances hroute hnext
  rw [deliver_of_initial hinitial hroute, hnone]
  have htaken' : ((c.takeIn x sender k id).answer id).messages.Taken id :=
    taken_answer taken_takeIn
  have hrouting : ((c.takeIn x sender k id).answer id).routing =
      (c.takeIn x sender k id).routing := rfl
  rw [← hrouting] at hadvances hnext ⊢
  generalize (c.takeIn x sender k id).answer id = c' at hadvances hnext htaken' ⊢
  refine ⟨⟨hadvances.descending ht, hadvances.knows, fun o ho => ?_, fun _ => htaken',
    fun _ hto => absurd rfl hto, fun _ => .inl ⟨htaken', rfl⟩,
    fun _ _ => .inr ⟨_, _, List.mem_singleton_self _⟩⟩, htaken'⟩
  cases List.mem_singleton.mp ho
  exact .inverse (by decide) (by decide) (hnext.mono (by rw [toInt_ttl]; omega))

/-- Another node sends a first copy on. -/
theorem relays_flood (ht : Descending tables sender) (hcore : c.routing = tables b)
    (hs : InMesh sender) (hx : InMesh x) (hpos : 0 < k) (hlt : k.toInt < ttl.toInt)
    (hback : Knows tables sender x (ttl.toInt - k.toInt)) (hto : b ≠ receiver)
    (htaken : ¬ c.messages.Taken id)
    (hfed : ¬ c.Starves b (.direct sender receiver k id)) :
    Relays sender receiver id tables b c
      (c.takeIn x sender k id, Core.flood b sender receiver k id) := by
  obtain ⟨hadvances, hway⟩ := advances_takeIn b hs hx hpos hlt hback
  have hpos : 0 < k.toInt := Int8.lt_iff_toInt_lt.mp hpos
  have hlast : (k - 1).toInt = k.toInt - 1 := toInt_sub_one hpos
  have hlearnt := learnDirect_eq x sender k id hcore
  rw [← hlearnt] at hadvances hway
  refine ⟨hadvances.descending ht, hadvances.knows, fun o ho => ?_, fun _ => taken_takeIn,
    fun hfrom _ _ => .inr fun a hadj => ⟨k - 1, ?_, mem_flood hadj⟩, fun h => absurd h hto,
    fun h => absurd h hto⟩
  · rw [(adjacent_of_mem_flood ho).2]
    exact .direct (by omega) (by omega) (hway.mono (by rw [toInt_ttl]; omega))
  · have hmore : k ≠ 1 := fun hone => hfed ⟨hone, hfrom, hto, htaken⟩
    have hmore' : k.toInt ≠ 1 := fun hone => hmore (Int8.toInt_inj.mp hone)
    exact Int8.lt_iff_toInt_lt.mpr (by rw [hlast]; change 0 < _; omega)

/-- A node that gets a copy has then taken one. -/
theorem relays_direct (ht : Descending tables sender) (hcore : c.routing = tables b)
    (hs : InMesh sender) (hx : InMesh x) (hlt : k.toInt < ttl.toInt)
    (hback : Knows tables sender x (ttl.toInt - k.toInt)) (hserved : b = receiver → c.Served id)
    (hne : receiver ≠ sender) (hfed : ¬ c.Starves b (.direct sender receiver k id)) :
    Relays sender receiver id tables b c (c.direct b x sender receiver k id) ∧
      (0 < k → (c.direct b x sender receiver k id).1.messages.Taken id) := by
  obtain ⟨hdrop, heq⟩ | ⟨hpos, htaken, rfl, heq⟩ | ⟨hpos, htaken, hto, heq⟩ :=
      Core.direct_cases b c x sender receiver k id <;>
    rw [heq]
  · exact ⟨relays_silent ht hcore hserved, fun hpos => hdrop.resolve_left (by grind)⟩
  · obtain ⟨hrelays, htaken'⟩ :=
      relays_answer ht hcore hs hx hpos hlt hback (hserved rfl) htaken hne
    exact ⟨hrelays, fun _ => htaken'⟩
  · exact ⟨relays_flood ht hcore hs hx hpos hlt hback (Ne.symm hto) htaken hfed,
      fun _ => taken_takeIn⟩

/-- The answer comes to the sender, who then has a route to the receiver, or is handed on. -/
theorem relays_inverse (ht : Descending tables sender) (hcore : c.routing = tables b)
    (hr : InMesh receiver) (hx : InMesh x) (hpos : 0 < k.toInt) (hle : k.toInt ≤ ttl.toInt)
    (hon : Knows tables sender b (k.toInt - 1)) (hserved : b = receiver → c.Served id)
    (hne : receiver ≠ sender) :
    Relays sender receiver id tables b c (c.inverse b x sender receiver k id) ∧
      (Knows (Function.update tables b (c.inverse b x sender receiver k id).1.routing) receiver
          sender 127 ∨
        ∃ a i, (a, Msg.inverse sender receiver i id) ∈ (c.inverse b x sender receiver k id).2) := by
  have htakes := takes_learnInverse tables b receiver x k
  have hlearnt : (c.learn x receiver k).routing = (tables b).learnInverse receiver x k := by
    rw [← hcore]
    rfl
  have hdescending := ht.takes htakes hr hx fun h => absurd h.symm hne
  have hknows : ∀ {d a i}, Knows tables d a i → Knows (Function.update tables b
      ((tables b).learnInverse receiver x k)) d a i := fun h => h.takes htakes hr hx
  have hmessages : (c.learn x receiver k).messages = c.messages := rfl
  have hserved' : b = receiver → (c.learn x receiver k).Served id := hserved
  have hcases := Core.inverse_cases b c x sender receiver k id
  generalize c.learn x receiver k = c' at hlearnt hmessages hserved' hcases
  rw [← hlearnt] at hdescending hknows
  have htaken : c.messages.Taken id ↔ c'.messages.Taken id := by rw [hmessages]
  obtain ⟨hstop, heq⟩ | ⟨hback, hroute, heq⟩ := hcases <;> rw [heq]
  · refine ⟨⟨hdescending, hknows, nofun, htaken.mp, fun _ _ h => .inl (htaken.mpr h), hserved',
      fun _ h => .inl (htaken.mpr h)⟩, .inl ?_⟩
    have hhome : sender = b := by
      by_contra hfar
      have hroute := ((hknows hon).hop hdescending (Ne.symm hfar)).1
      rw [Function.update_self] at hroute
      exact hroute (hstop.resolve_left hfar)
    subst hhome
    rw [hlearnt]
    have hmetric : (RoutingTable.newMetric k).toInt = 21 - k.toInt :=
      toInt_newMetric (Int.le_of_lt hpos) hle
    rw [toInt_ttl] at hle
    exact knows_learnInverse hr hx (Int8.lt_iff_toInt_lt.mpr (by rw [hmetric]; change 0 < _; omega))
      (.inr (.inr (Int.le_of_lt_add_one (Int8.toInt_lt _)))) (by omega)
  · obtain ⟨-, hmore, hnext⟩ := (hknows hon).hop hdescending (Ne.symm hback)
    rw [Function.update_self] at hnext
    refine ⟨⟨hdescending, hknows, fun o ho => ?_, htaken.mp, fun _ _ h => .inl (htaken.mpr h),
      hserved', fun _ h => .inl (htaken.mpr h)⟩, .inr ⟨_, _, List.mem_singleton_self _⟩⟩
    have hlast : (k - 1).toInt = k.toInt - 1 := toInt_sub_one hpos
    cases List.mem_singleton.mp ho
    exact .inverse (by omega) (by omega) (hnext.mono (by omega))

/-! ## The flood as a whole -/

/-- All that is on its way is the message. A node that has sent it on has a copy of it on the way to
every neighbour that has taken none yet, and the answer is on its way or has arrived. -/
structure Spreading (sender receiver : UInt8) (id : UInt16) (s : Protocol) : Prop where
  near : s.Local
  server : ∀ b, s.wire .server b = []
  descending : Descending s.tables sender
  flights : ∀ x b, ∀ f ∈ s.wire (.node x) b, EnRoute sender receiver id s.tables x b f.packet
  spread : ∀ b a, Adjacent b a → b ≠ receiver → b = sender ∨ (s.core b).messages.Taken id →
    (s.core a).messages.Taken id ∨
      ∃ f ∈ s.wire (.node b) a, ∃ k, 0 < k ∧ f.packet = .direct sender receiver k id
  served : (s.core receiver).Served id
  answered : (s.core receiver).messages.Taken id → Knows s.tables receiver sender 127 ∨
    ∃ x b, ∃ f ∈ s.wire (.node x) b, ∃ k, f.packet = .inverse sender receiver k id

variable {s : Protocol}

theorem EnRoute.knows {tables' : UInt8 → RoutingTable} {msg : Msg}
    (h : EnRoute sender receiver id tables x b msg)
    (hknows : ∀ {d a i}, Knows tables d a i → Knows tables' d a i) :
    EnRoute sender receiver id tables' x b msg := by
  cases h with
  | direct hpos hlt hback => exact .direct hpos hlt (hknows hback)
  | inverse hpos hle hon => exact .inverse hpos hle (hknows hon)

/-- What a node makes of a packet that is on its way to it. -/
theorem Spreading.relays (h : Spreading sender receiver id s) (hs : InMesh sender)
    (hr : InMesh receiver) (hne : receiver ≠ sender) {f : Flight Msg}
    (hf : f ∈ s.wire (.node x) b) (hfed : ¬ (s.core b).Starves b f.packet) :
    Relays sender receiver id s.tables b (s.core b) ((s.core b).react b x f.packet) ∧
      (∀ k, 0 < k → f.packet = .direct sender receiver k id →
        ((s.core b).react b x f.packet).1.messages.Taken id) ∧
      (∀ k, f.packet = .inverse sender receiver k id →
        Knows (Function.update s.tables b ((s.core b).react b x f.packet).1.routing) receiver
            sender 127 ∨
          ∃ a i, (a, Msg.inverse sender receiver i id) ∈ ((s.core b).react b x f.packet).2) := by
  have hserved : b = receiver → (s.core b).Served id := fun hb => hb ▸ h.served
  have hx : InMesh x := Adjacent.inMesh_left (h.near.flights (.node x) b f hf)
  have hroute := h.flights x b f hf
  generalize f.packet = msg at hroute hfed ⊢
  cases hroute with
  | direct hpos hlt hback =>
    obtain ⟨hrelays, htaken⟩ :=
      relays_direct h.descending rfl hs hx hlt hback hserved hne hfed
    exact ⟨hrelays, fun k hk heq => htaken (by cases heq; exact hk), nofun⟩
  | inverse hpos hle hon =>
    obtain ⟨hrelays, hanswer⟩ :=
      relays_inverse h.descending rfl hr hx hpos hle hon hserved hne
    exact ⟨hrelays, nofun, fun _ _ => hanswer⟩

/-- A copy that could be sent on is still on its way, or its receiver has now taken one. -/
theorem spreading_of_relays (h : Spreading sender receiver id s) {f : Flight Msg}
    {fs : List (Flight Msg)} (hwire : s.wire (.node x) b = f :: fs)
    (hrelays : Relays sender receiver id s.tables b (s.core b) ((s.core b).react b x f.packet))
    (htaken : ∀ k, 0 < k → f.packet = .direct sender receiver k id →
      ((s.core b).react b x f.packet).1.messages.Taken id)
    (hanswer : ∀ k, f.packet = .inverse sender receiver k id →
      Knows (Function.update s.tables b ((s.core b).react b x f.packet).1.routing) receiver
          sender 127 ∨
        ∃ a i, (a, Msg.inverse sender receiver i id) ∈ ((s.core b).react b x f.packet).2) :
    Spreading sender receiver id (s.step (.deliver (.node x) b)) := by
  have htables := Protocol.tables_deliver hwire
  have hself : (s.step (.deliver (.node x) b)).core b = ((s.core b).react b x f.packet).1 := by
    rw [Protocol.core_deliver hwire, Function.update_self]
    rfl
  have hmore : ∀ a, (s.core a).messages.Taken id →
      ((s.step (.deliver (.node x) b)).core a).messages.Taken id :=
    Protocol.forall_core_deliver
      (P := fun a c => (s.core a).messages.Taken id → c.messages.Taken id) hwire hrelays.taken
      fun _ _ ha => ha
  have hnew : ∀ a msg, (a, msg) ∈ ((s.core b).react b x f.packet).2 →
      ∃ g ∈ (s.step (.deliver (.node x) b)).wire (.node b) a, g.packet = msg := fun _ _ hsent =>
    ⟨_, Protocol.mem_wire_of_sent hwire hsent, rfl⟩
  have hold : ∀ y a, ∀ g ∈ s.wire (.node y) a,
      g ∈ (s.step (.deliver (.node x) b)).wire (.node y) a ∨ y = x ∧ a = b ∧ g = f := by
    intro y a g hg
    obtain hkept | ⟨hy, ha, hgf⟩ := Protocol.mem_wire_or hwire hg
    · exact .inl hkept
    · exact .inr ⟨Peer.node.inj hy, ha, hgf⟩
  refine ⟨local_step h.near _, Protocol.server_deliver h.server,
    htables ▸ hrelays.descending, fun y a g hg => ?_, fun y a hadj hy hhas => ?_, ?_,
    fun hhas => ?_⟩
  · rw [htables]
    obtain hkept | ⟨hsrc, hsent, -⟩ := Protocol.mem_wire_deliver hwire hg
    · exact (h.flights y a g hkept).knows hrelays.knows
    · cases hsrc
      exact hrelays.out (a, g.packet) hsent
  · by_cases hfirst : y = b ∧ y ≠ sender ∧ ¬ (s.core b).messages.Taken id
    · obtain ⟨rfl, hfrom, hnone⟩ := hfirst
      have htook := hself ▸ hhas.resolve_left hfrom
      obtain ⟨k, hk, hmem⟩ := (hrelays.spread hfrom hy htook).resolve_left hnone a hadj
      obtain ⟨g, hg, hpacket⟩ := hnew a _ hmem
      exact .inr ⟨g, hg, k, hk, hpacket⟩
    · have hbefore : y = sender ∨ (s.core y).messages.Taken id := by
        rw [Protocol.core_deliver hwire] at hhas
        grind
      obtain hthere | ⟨g, hg, k, hk, hpacket⟩ := h.spread y a hadj hy hbefore
      · exact .inl (hmore a hthere)
      · obtain hkept | ⟨rfl, rfl, rfl⟩ := hold y a g hg
        · exact .inr ⟨g, hkept, k, hk, hpacket⟩
        · exact .inl (hself ▸ htaken k hk hpacket)
  · exact Protocol.forall_core_deliver (P := fun a c => a = receiver → c.Served id) hwire
      hrelays.served (fun a _ ha => ha ▸ h.served) receiver rfl
  · rw [htables]
    have hcases : (s.core receiver).messages.Taken id ∨
        ∃ a k, (a, Msg.inverse sender receiver k id) ∈ ((s.core b).react b x f.packet).2 :=
      Protocol.forall_core_deliver (P := fun a c => a = receiver → c.messages.Taken id →
          (s.core receiver).messages.Taken id ∨
            ∃ a k, (a, Msg.inverse sender receiver k id) ∈ ((s.core b).react b x f.packet).2)
        hwire (fun hb htook => hb ▸ hrelays.answers hb htook)
        (fun a _ ha htook => .inl (ha ▸ htook)) receiver rfl hhas
    obtain hbefore | ⟨a, k, hmem⟩ := hcases
    · obtain hknows | ⟨y, a, g, hg, k, hpacket⟩ := h.answered hbefore
      · exact .inl (hrelays.knows hknows)
      · obtain hkept | ⟨rfl, rfl, rfl⟩ := hold y a g hg
        · exact .inr ⟨y, a, g, hkept, k, hpacket⟩
        · obtain hknows | ⟨c, i, hmem⟩ := hanswer k hpacket
          · exact .inl hknows
          · obtain ⟨g, hg, hpacket⟩ := hnew c _ hmem
            exact .inr ⟨a, c, g, hg, i, hpacket⟩
    · obtain ⟨g, hg, hpacket⟩ := hnew a _ hmem
      exact .inr ⟨b, a, g, hg, k, hpacket⟩

theorem spreading_deliver (h : Spreading sender receiver id s) (hs : InMesh sender)
    (hr : InMesh receiver) (hne : receiver ≠ sender) {src : Peer}
    (hfed : ∀ f ∈ (s.wire src b).head?, ¬ (s.core b).Starves b f.packet) :
    Spreading sender receiver id (s.step (.deliver src b)) := by
  cases hwire : s.wire src b with
  | nil => rwa [Protocol.step_deliver_nil hwire]
  | cons f fs =>
    cases src with
    | server =>
      rw [h.server] at hwire
      cases hwire
    | node x =>
      rw [hwire] at hfed
      obtain ⟨hrelays, htaken, hanswer⟩ :=
        h.relays hs hr hne (hwire ▸ List.mem_cons_self) (hfed f rfl)
      exact spreading_of_relays h hwire hrelays htaken hanswer

/-- The sender has looked for the receiver: its copies are on their way, and no node has changed. -/
theorem started (hs : InMesh sender) (hne : receiver ≠ sender) {s' : Protocol}
    (hs' : s' = run Protocol.step (.start id) [.client sender receiver, .deliver .server sender]) :
    s'.Local ∧ (∀ a, s'.core a = .start) ∧ ∀ {x b f}, f ∈ s'.wire x b ↔
      x = .node sender ∧ (b, f.packet) ∈ Core.flood sender sender receiver ttl id ∧ f.hops = 1 := by
  let s₀ := (Protocol.start id).step (.client sender receiver)
  have hwire₀ : s₀.wire = Protocol.emit .server 0 [(sender, .send sender receiver id)]
      fun _ _ => [] := if_pos hs
  have hfront : s₀.wire .server sender = [⟨.send sender receiver id, 0⟩] := by
    rw [hwire₀]
    simp [Protocol.emit]
  have hreact : (s₀.core sender).react sender noAddr (.send sender receiver id) =
      (.start, Core.flood sender sender receiver ttl id) := by
    obtain ⟨hto, -⟩ | ⟨-, -, heq⟩ | ⟨-, hroute, -⟩ :=
      Core.send_cases sender .start sender receiver id
    · exact absurd hto hne
    · exact heq
    · exact absurd (RoutingTable.nextAddr_fillDefault receiver) hroute
  change s' = s₀.step (.deliver .server sender) at hs'
  subst hs'
  refine ⟨local_step (local_step (local_start id) (.client sender receiver)) _, fun a => ?_, ?_⟩
  · rw [Protocol.step_deliver_cons hfront]
    change Function.update s₀.core sender ((s₀.core sender).react sender noAddr
      (.send sender receiver id)).1 a = .start
    rw [hreact]
    by_cases ha : a = sender
    · rw [ha, Function.update_self]
    · rw [Function.update_of_ne ha]
      rfl
  · intro x b f
    rw [Protocol.step_deliver_cons hfront]
    change f ∈ Protocol.emit (.node sender) 1 ((s₀.core sender).react sender noAddr
      (.send sender receiver id)).2 (Protocol.pop .server sender s₀.wire) x b ↔ _
    rw [hreact, Protocol.mem_emit]
    refine ⟨fun hf => hf.resolve_left fun hpop => ?_, .inr⟩
    rw [hwire₀] at hpop
    unfold Protocol.pop Protocol.emit at hpop
    grind

theorem spreading_start (hs : InMesh sender) (hne : receiver ≠ sender) :
    Spreading sender receiver id
      (run Protocol.step (.start id) [.client sender receiver, .deliver .server sender]) := by
  obtain ⟨hnear, hcore, hmem⟩ := @started sender receiver id hs hne _ rfl
  generalize run Protocol.step (.start id) [.client sender receiver, .deliver .server sender] = s'
    at hnear hcore hmem ⊢
  have hnone : ∀ a d, (s'.tables a).nextAddr d = noAddr := by
    intro a d
    rw [Protocol.tables, hcore]
    exact RoutingTable.nextAddr_fillDefault d
  have hfree : ∀ a, ¬ (s'.core a).messages.Taken id := fun a => by
    rw [hcore]
    exact not_taken_initial
  refine ⟨hnear, fun b => ?_, ⟨fun b h => absurd (hnone b _) h, fun b h => absurd (hnone b _) h,
    fun b h => absurd (hnone b _) h⟩, fun x b f hf => ?_, fun b a hadj hb hhas => ?_, ?_,
    fun h => absurd h (hfree receiver)⟩
  · rw [List.eq_nil_iff_forall_not_mem]
    exact fun f hf => Peer.noConfusion (hmem.mp hf).1
  · obtain ⟨hx, hflood, -⟩ := hmem.mp hf
    cases hx
    have hpacket : f.packet = .direct sender receiver (ttl - 1) id :=
      (adjacent_of_mem_flood hflood).2
    rw [hpacket]
    exact .direct (by decide) (by decide) (knows_self (by decide))
  · obtain rfl := hhas.resolve_right (hfree b)
    exact .inr ⟨⟨.direct b receiver (ttl - 1) id, 1⟩, hmem.mpr ⟨rfl, mem_flood hadj, rfl⟩, ttl - 1,
      by decide, rfl⟩
  · rw [hcore]
    exact .inr ⟨rfl, rfl⟩

/-- When nothing is left on its way, all nodes that the sender can reach have taken a copy, unless
only the receiver leads to them. -/
theorem Spreading.taken_of_quiet (h : Spreading sender receiver id s)
    (hquiet : ∀ x b, s.wire (.node x) b = []) (hne : receiver ≠ sender)
    (hb : Relation.ReflTransGen Adjacent sender b) :
    (s.core receiver).messages.Taken id ∨ b = sender ∨ (s.core b).messages.Taken id := by
  induction hb with
  | refl => exact .inr (.inl rfl)
  | @tail b a _ hadj ih =>
    obtain hdone | hhas := ih
    · exact .inl hdone
    · by_cases hto : b = receiver
      · exact .inl (hhas.elim (fun heq => absurd (hto.symm.trans heq) hne) fun h => hto ▸ h)
      · obtain hthere | ⟨f, hf, -⟩ := h.spread b a hadj hto hhas
        · exact .inr (.inr hthere)
        · rw [hquiet] at hf
          cases hf

/-- When nothing is left on its way, the receiver has handled the message once and the sender has a
route to it. -/
theorem Spreading.arrived_of_quiet (h : Spreading sender receiver id s)
    (hquiet : ∀ x b, s.wire (.node x) b = []) (hs : InMesh sender) (hr : InMesh receiver)
    (hne : receiver ≠ sender) :
    (s.core receiver).handled = [id] ∧ (s.core sender).routing.nextAddr receiver ≠ noAddr := by
  have htaken : (s.core receiver).messages.Taken id := by
    obtain hdone | heq | hdone := h.taken_of_quiet hquiet hne (reflTransGen_adjacent hs hr)
    · exact hdone
    · exact absurd heq hne
    · exact hdone
  refine ⟨?_, ?_⟩
  · obtain ⟨-, hhandled⟩ | ⟨hinitial, -⟩ := h.served
    · exact hhandled
    · rw [hinitial] at htaken
      exact absurd htaken not_taken_initial
  · obtain hknows | ⟨x, b, f, hf, -⟩ := h.answered htaken
    · exact (hknows.resolve_left fun heq => hne heq.1.symm).1
    · rw [hquiet] at hf
      cases hf

end MeshNet
