import MeshNet.Library.Routes
import MeshNet.Mesh.Refinement

/-!
# Routes on a healthy mesh

A node that answers a flood, or hands an answer on, takes the way over which the packet came. As
long as it has no longer way than that, which an answer does not replace, the lengths in the tables
go down along every route, and so do the times to live of all packets on their way.
-/

namespace MeshNet
open Library

/-! ## What the tables know -/

/-- The node `b` knows a way to `d` that is no longer than `k`. -/
def Knows (tables : UInt8 → RoutingTable) (d b : UInt8) (k : Int) : Prop :=
  b = d ∧ 0 ≤ k ∨ (tables b).nextAddr d ≠ noAddr ∧ ((tables b).get d).metric.toInt ≤ k

/-- Every route to `d` is some hops long, and leads to a node that knows a shorter one. -/
structure Descending (tables : UInt8 → RoutingTable) (d : UInt8) : Prop where
  pos : ∀ b, (tables b).nextAddr d ≠ noAddr → 0 < ((tables b).get d).metric.toInt
  le : ∀ b, (tables b).nextAddr d ≠ noAddr → ((tables b).get d).metric.toInt ≤ ttl.toInt
  hop : ∀ b, (tables b).nextAddr d ≠ noAddr →
    Knows tables d ((tables b).nextAddr d) (((tables b).get d).metric.toInt - 1)

/-- What `b` does with its table on account of a packet from `d` that came over `x` and travelled
the distance `k`. -/
def Takes (tables : UInt8 → RoutingTable) (b d x : UInt8) (k : Int8) (t : RoutingTable) : Prop :=
  t = tables b ∨
    t = (tables b).setAddr d x k ∧
      ((tables b).nextAddr d = noAddr ∨ k < ((tables b).get d).metric)

def Protocol.tables (s : Protocol) (a : UInt8) : RoutingTable := (s.core a).routing

variable {tables : UInt8 → RoutingTable} {a b c d x y : UInt8} {k : Int8} {i j : Int}
  {t : RoutingTable}

theorem Protocol.tables_deliver {s : Protocol} {src : Peer} {f : Flight Msg}
    {fs : List (Flight Msg)} (h : s.wire src b = f :: fs) :
    (s.step (.deliver src b)).tables =
      Function.update s.tables b ((s.core b).react b src.addr f.packet).1.routing := by
  funext a
  rw [tables, core_deliver h]
  by_cases ha : a = b
  · subst ha
    rw [Function.update_self, Function.update_self]
  · rw [Function.update_of_ne ha, Function.update_of_ne ha, tables]

theorem Knows.mono (h : Knows tables d b i) (hij : i ≤ j) : Knows tables d b j := by
  grind [Knows]

theorem knows_self (h : 0 ≤ i) : Knows tables d d i := .inl ⟨rfl, h⟩

theorem Knows.pos (ht : Descending tables d) (h : Knows tables d b i) : 0 ≤ i := by
  obtain ⟨-, hi⟩ | ⟨hroute, hle⟩ := h
  · exact hi
  · have hpos := ht.pos b hroute
    omega

/-- A node other than `d` that knows a way to `d` has a route, and the next node knows a way too. -/
theorem Knows.hop (ht : Descending tables d) (h : Knows tables d b i) (hb : b ≠ d) :
    (tables b).nextAddr d ≠ noAddr ∧ 0 < i ∧ Knows tables d ((tables b).nextAddr d) (i - 1) := by
  obtain ⟨heq, -⟩ | ⟨hroute, hle⟩ := h
  · exact absurd heq hb
  · have hpos := ht.pos b hroute
    exact ⟨hroute, by omega, (ht.hop b hroute).mono (by omega)⟩

theorem get_update_setAddr (hd : InMesh d) :
    ((Function.update tables b ((tables b).setAddr d x k)) c).get y =
      if c = b ∧ y = d then ⟨x, k⟩ else (tables c).get y := by
  by_cases hc : c = b
  · subst hc
    rw [Function.update_self, RoutingTable.get_setAddr]
    grind [InMesh]
  · rw [Function.update_of_ne hc]
    grind

/-- A table only changes for the better. -/
theorem Knows.takes (h : Knows tables y c i) (ht : Takes tables b d x k t) (hd : InMesh d)
    (hx : InMesh x) : Knows (Function.update tables b t) y c i := by
  obtain rfl | ⟨rfl, hbetter⟩ := ht
  · rwa [Function.update_eq_self]
  · have hne := hx.ne_noAddr
    unfold Knows at h ⊢
    rw [RoutingTable.nextAddr_eq, get_update_setAddr hd]
    rw [RoutingTable.nextAddr_eq] at h hbetter
    grind [Int8.lt_iff_toInt_lt]

/-- The routes to `y` stay in order where a new one is learnt at its proper length. -/
theorem Descending.takes (h : Descending tables y) (ht : Takes tables b d x k t) (hd : InMesh d)
    (hx : InMesh x) (hnew : y = d → 0 < k.toInt ∧ k.toInt ≤ ttl.toInt ∧
      Knows tables d x (k.toInt - 1)) : Descending (Function.update tables b t) y := by
  have hkeep := fun {c i} (hold : Knows tables y c i) => hold.takes ht hd hx
  obtain rfl | ⟨rfl, -⟩ := ht
  · rwa [Function.update_eq_self]
  · have hentry : ∀ c, ((Function.update tables b ((tables b).setAddr d x k)) c).get y =
        if c = b ∧ y = d then ⟨x, k⟩ else (tables c).get y := fun c => get_update_setAddr hd
    refine ⟨fun c => ?_, fun c => ?_, fun c => ?_⟩ <;>
      rw [RoutingTable.nextAddr_eq, hentry] <;>
      intro hroute <;>
      by_cases hfresh : c = b ∧ y = d
    · rw [if_pos hfresh]
      exact (hnew hfresh.2).1
    · rw [if_neg hfresh] at hroute ⊢
      exact h.pos c (by rwa [RoutingTable.nextAddr_eq])
    · rw [if_pos hfresh]
      exact (hnew hfresh.2).2.1
    · rw [if_neg hfresh] at hroute ⊢
      exact h.le c (by rwa [RoutingTable.nextAddr_eq])
    · rw [if_pos hfresh]
      exact hkeep (hfresh.2 ▸ (hnew hfresh.2).2.2)
    · rw [if_neg hfresh] at hroute ⊢
      rw [← RoutingTable.nextAddr_eq] at hroute ⊢
      exact hkeep (h.hop c hroute)

/-! ## What the packets know -/

/-- The way back is known at the distance that the packet has travelled. -/
theorem takes_learnDirect (tables : UInt8 → RoutingTable) (b : UInt8) (hd : InMesh d)
    (hx : InMesh x) (hpos : 0 < RoutingTable.newMetric k) :
    Takes tables b d x (RoutingTable.newMetric k) ((tables b).learnDirect d x k) ∧
      Knows (Function.update tables b ((tables b).learnDirect d x k)) d b
        (RoutingTable.newMetric k).toInt := by
  have hne := hx.ne_noAddr
  obtain ⟨heq, hkept⟩ | ⟨heq, -, hbetter⟩ := RoutingTable.learnDirect_cases (t := tables b) d x k
  · obtain ⟨hroute, hle⟩ := hkept.resolve_left (by grind)
    rw [heq, Function.update_eq_self]
    exact ⟨.inl rfl, .inr ⟨hroute, Int8.le_iff_toInt_le.mp hle⟩⟩
  · rw [heq]
    refine ⟨.inr ⟨rfl, hbetter⟩, .inr ?_⟩
    rw [RoutingTable.nextAddr_eq, get_update_setAddr hd, if_pos ⟨rfl, rfl⟩]
    exact ⟨hne, Int.le_refl _⟩

theorem takes_learnInverse (tables : UInt8 → RoutingTable) (b d x : UInt8) (k : Int8) :
    Takes tables b d x (RoutingTable.newMetric k) ((tables b).learnInverse d x k) := by
  obtain ⟨heq, -⟩ | ⟨heq, -, hnone⟩ := RoutingTable.learnInverse_cases (t := tables b) d x k
  · exact .inl heq
  · exact .inr ⟨heq, .inl hnone⟩

/-- The way to the receiver is known, at the distance that the packet has travelled unless the
node has a longer way, which it keeps. -/
theorem knows_learnInverse (hd : InMesh d) (hx : InMesh x) (hpos : 0 < RoutingTable.newMetric k)
    (hkeeps : d = b ∨ (tables b).nextAddr d = noAddr ∨ ((tables b).get d).metric.toInt ≤ i)
    (hi : (RoutingTable.newMetric k).toInt ≤ i) :
    Knows (Function.update tables b ((tables b).learnInverse d x k)) d b i := by
  have hne := hx.ne_noAddr
  obtain ⟨heq, hkept⟩ | ⟨heq, -, hnone⟩ := RoutingTable.learnInverse_cases (t := tables b) d x k
  · have hroute := hkept.resolve_left (by grind)
    rw [heq, Function.update_eq_self]
    obtain rfl | hnone | hle := hkeeps
    · have hlong := Int8.lt_iff_toInt_lt.mp hpos
      change 0 < _ at hlong
      exact knows_self (by omega)
    · exact absurd hnone hroute
    · exact .inr ⟨hroute, hle⟩
  · rw [heq]
    refine .inr ?_
    rw [RoutingTable.nextAddr_eq, get_update_setAddr hd, if_pos ⟨rfl, rfl⟩]
    exact ⟨hne, hi⟩

/-- What the tables know of a packet that goes from `src` to `b` for the `hops`th time: the way
that it has come by, and the way that is before it. -/
def Backed (tables : UInt8 → RoutingTable) (src : Peer) (b : UInt8) (hops : Nat) : Msg → Prop
  | .send _ receiver _ => src = .server ∧ hops = 0 ∨ Knows tables receiver b (ttl.toInt - hops)
  | .direct sender _ timeToLive _ =>
    InMesh sender ∧ 0 ≤ timeToLive.toInt ∧ timeToLive.toInt < ttl.toInt ∧
      Knows tables sender src.addr (ttl.toInt - timeToLive.toInt)
  | .inverse sender receiver timeToLive _ =>
    InMesh sender ∧ InMesh receiver ∧ 0 < timeToLive.toInt ∧ timeToLive.toInt ≤ ttl.toInt ∧
      Knows tables receiver src.addr (ttl.toInt - timeToLive.toInt) ∧
      Knows tables sender b (timeToLive.toInt - 1)

/-- The packet goes back to its sender by a shorter way from its receiver than the node keeps. -/
def Core.Overlooks (addr : UInt8) (c : Core) : Msg → Prop
  | .inverse _ receiver timeToLive _ =>
    receiver ≠ addr ∧ c.routing.nextAddr receiver ≠ noAddr ∧
      RoutingTable.newMetric timeToLive < (c.routing.get receiver).metric
  | _ => False

/-- The routes in `tables'` are in order if those in `tables` are, and are no longer. -/
structure Advances (tables tables' : UInt8 → RoutingTable) : Prop where
  descending : ∀ {d}, Descending tables d → Descending tables' d
  knows : ∀ {d b i}, Knows tables d b i → Knows tables' d b i

variable {tables' : UInt8 → RoutingTable} {src : Peer} {hops : Nat} {msg : Msg} {core : Core}
  {sender receiver : UInt8} {id : UInt16}

theorem Advances.refl (tables : UInt8 → RoutingTable) : Advances tables tables :=
  ⟨fun h => h, fun h => h⟩

theorem Advances.trans {tables'' : UInt8 → RoutingTable} (h : Advances tables tables')
    (h' : Advances tables' tables'') : Advances tables tables'' :=
  ⟨fun hd => h'.descending (h.descending hd), fun hk => h'.knows (h.knows hk)⟩

theorem Backed.advances (h : Backed tables src b hops msg) (ht : Advances tables tables') :
    Backed tables' src b hops msg := by
  cases msg with
  | send sender receiver id => exact h.imp_right ht.knows
  | direct sender receiver k id => exact ⟨h.1, h.2.1, h.2.2.1, ht.knows h.2.2.2⟩
  | inverse sender receiver k id =>
    obtain ⟨hs, hr, hpos, hle, hback, hon⟩ := h
    exact ⟨hs, hr, hpos, hle, ht.knows hback, ht.knows hon⟩

/-! ## What a node makes of them -/

/-- The tables after `b` has got to `core`, and the packets that it sends for the `hops`th time. -/
def Orderly (tables : UInt8 → RoutingTable) (b : UInt8) (hops : Nat)
    (r : Core × List (UInt8 × Msg)) : Prop :=
  Advances tables (Function.update tables b r.1.routing) ∧
    ∀ o ∈ r.2, Backed (Function.update tables b r.1.routing) (.node b) o.1 hops o.2

theorem advances_same (hcore : core.routing = tables b) :
    Advances tables (Function.update tables b core.routing) := by
  rw [hcore, Function.update_eq_self]
  exact .refl tables

theorem orderly_silent (hcore : core.routing = tables b) : Orderly tables b hops (core, []) :=
  ⟨advances_same hcore, nofun⟩

theorem orderly_send (ht : ∀ d, Descending tables d) (hcore : core.routing = tables b)
    (hfrom : FromNear src b (.send sender receiver id))
    (h : Backed tables src b hops (.send sender receiver id)) :
    Orderly tables b (hops + 1) (core.send b sender receiver id) := by
  obtain ⟨-, heq⟩ | ⟨hto, hnext, heq⟩ | ⟨hto, hnext, heq⟩ :=
      Core.send_cases b core sender receiver id <;>
    rw [heq]
  · exact orderly_silent hcore
  · -- Only the sender has no route.
    rw [hcore] at hnext
    obtain ⟨rfl, -⟩ | hknows := h
    · obtain ⟨hmesh, _, _, hmsg⟩ := hfrom
      cases hmsg
      refine ⟨advances_same hcore, fun o ho => ?_⟩
      rw [hcore, Function.update_eq_self, (adjacent_of_mem_flood ho).2]
      exact ⟨hmesh, by decide, by decide, knows_self (by decide)⟩
    · exact absurd hnext (hknows.hop (ht receiver) (Ne.symm hto)).1
  · refine ⟨advances_same hcore, fun o ho => ?_⟩
    cases List.mem_singleton.mp ho
    rw [hcore, Function.update_eq_self]
    rw [hcore] at hnext
    obtain ⟨-, rfl⟩ | hknows := h
    · have hle := (ht receiver).le b hnext
      exact .inr (((ht receiver).hop b hnext).mono (by omega))
    · exact .inr ((hknows.hop (ht receiver) (Ne.symm hto)).2.2.mono (by omega))

theorem orderly_deliver (ht : ∀ d, Descending tables d) (hcore : core.routing = tables b)
    (hs : InMesh sender) (hb : InMesh b) : Orderly tables b hops (core.deliver sender b id) := by
  obtain ⟨-, heq⟩ | ⟨-, -, heq⟩ | ⟨-, hnext, heq⟩ := Core.deliver_cases core sender b id <;>
    rw [heq]
  · exact orderly_silent hcore
  · exact orderly_silent hcore
  · refine ⟨advances_same hcore, fun o ho => ?_⟩
    cases List.mem_singleton.mp ho
    change Backed (Function.update tables b core.routing) _ _ _ _
    rw [hcore, Function.update_eq_self]
    rw [hcore] at hnext
    have hle := (ht sender).le b hnext
    exact ⟨hs, hb, by decide, by decide, knows_self (by decide),
      ((ht sender).hop b hnext).mono (by omega)⟩

/-- What is sent with the new tables is sent with the old ones. -/
theorem Orderly.of_update {r : Core × List (UInt8 × Msg)}
    (hold : Advances tables (Function.update tables b t))
    (h : Orderly (Function.update tables b t) b hops r) : Orderly tables b hops r := by
  obtain ⟨hnew, hout⟩ := h
  rw [Function.update_idem] at hnew hout
  exact ⟨hold.trans hnew, hout⟩

/-- The way back of a packet that the node takes in. -/
theorem advances_takeIn (b : UInt8) (hs : InMesh sender) (hx : InMesh x) (hpos : 0 < k)
    (hlt : k.toInt < ttl.toInt) (hknows : Knows tables sender x (ttl.toInt - k.toInt)) :
    Advances tables (Function.update tables b ((tables b).learnDirect sender x k)) ∧
      Knows (Function.update tables b ((tables b).learnDirect sender x k)) sender b
        (21 - k.toInt) := by
  have hpos : 0 < k.toInt := Int8.lt_iff_toInt_lt.mp hpos
  rw [toInt_ttl] at hlt hknows
  have hmetric : (RoutingTable.newMetric k).toInt = 21 - k.toInt :=
    toInt_newMetric (by omega) (by omega)
  have hlong : 0 < RoutingTable.newMetric k :=
    Int8.lt_iff_toInt_lt.mpr (by rw [hmetric]; change 0 < _; omega)
  obtain ⟨htakes, hway⟩ := takes_learnDirect tables b hs hx hlong
  rw [hmetric] at hway
  exact ⟨⟨fun hd => hd.takes htakes hs hx fun _ =>
    ⟨by omega, by rw [toInt_ttl]; omega, hknows.mono (by omega)⟩,
    fun hd => hd.takes htakes hs hx⟩, hway⟩

theorem routing_takeIn (hcore : core.routing = tables b) :
    (core.takeIn x sender k id).routing =
      Function.update tables b ((tables b).learnDirect sender x k) b := by
  rw [Function.update_self, ← hcore]
  rfl

theorem orderly_direct (ht : ∀ d, Descending tables d) (hcore : core.routing = tables b)
    (hb : InMesh b) (hx : InMesh src.addr)
    (h : Backed tables src b hops (.direct sender receiver k id)) :
    Orderly tables b (hops + 1) (core.direct b src.addr sender receiver k id) := by
  obtain ⟨hs, -, hlt, hknows⟩ := h
  obtain ⟨-, heq⟩ | ⟨hpos, -, rfl, heq⟩ | ⟨hpos, -, -, heq⟩ :=
      Core.direct_cases b core src.addr sender receiver k id <;>
    rw [heq]
  · exact orderly_silent hcore
  · obtain ⟨hadvances, -⟩ := advances_takeIn receiver hs hx hpos hlt hknows
    exact .of_update hadvances
      (orderly_deliver (fun d => hadvances.descending (ht d)) (routing_takeIn hcore) hs hb)
  · obtain ⟨hadvances, hway⟩ := advances_takeIn b hs hx hpos hlt hknows
    refine .of_update hadvances ⟨advances_same (routing_takeIn hcore), fun o ho => ?_⟩
    rw [routing_takeIn hcore, Function.update_eq_self, (adjacent_of_mem_flood ho).2]
    have hpos : 0 < k.toInt := Int8.lt_iff_toInt_lt.mp hpos
    have hlast : (k - 1).toInt = k.toInt - 1 := toInt_sub_one hpos
    exact ⟨hs, by omega, by omega, hway.mono (by rw [toInt_ttl]; omega)⟩

theorem orderly_inverse (ht : ∀ d, Descending tables d) (hcore : core.routing = tables b)
    (hx : InMesh src.addr) (h : Backed tables src b hops (.inverse sender receiver k id))
    (hkeeps : ¬ core.Overlooks b (.inverse sender receiver k id)) :
    Orderly tables b (hops + 1) (core.inverse b src.addr sender receiver k id) := by
  obtain ⟨hs, hr, hpos, hle, hback, hon⟩ := h
  have hmetric : (RoutingTable.newMetric k).toInt = 21 - k.toInt :=
    toInt_newMetric (Int.le_of_lt hpos) hle
  rw [toInt_ttl] at hle hback
  have hkeeps' : receiver = b ∨ (tables b).nextAddr receiver = noAddr ∨
      ((tables b).get receiver).metric.toInt ≤ (RoutingTable.newMetric k).toInt := by
    rw [Core.Overlooks, hcore] at hkeeps
    grind [Int8.lt_iff_toInt_lt]
  have hlong : 0 < RoutingTable.newMetric k :=
    Int8.lt_iff_toInt_lt.mpr (by rw [hmetric]; change 0 < _; omega)
  have htakes := takes_learnInverse tables b receiver src.addr k
  have hway := knows_learnInverse hr hx hlong hkeeps' (Int.le_refl _)
  have hadvances : Advances tables
      (Function.update tables b ((tables b).learnInverse receiver src.addr k)) :=
    ⟨fun hd => hd.takes htakes hr hx fun _ =>
      ⟨by omega, by rw [toInt_ttl]; omega, hback.mono (by omega)⟩,
      fun hd => hd.takes htakes hr hx⟩
  have hlearnt : (core.learn src.addr receiver k).routing =
      Function.update tables b ((tables b).learnInverse receiver src.addr k) b := by
    rw [Function.update_self, ← hcore]
    rfl
  obtain ⟨-, heq⟩ | ⟨hback, hnext, heq⟩ :=
      Core.inverse_cases b core src.addr sender receiver k id <;>
    rw [heq]
  · exact .of_update hadvances (orderly_silent hlearnt)
  · refine .of_update hadvances ⟨advances_same hlearnt, fun o ho => ?_⟩
    cases List.mem_singleton.mp ho
    rw [hlearnt, Function.update_eq_self]
    obtain ⟨-, hmore, hnear⟩ :=
      (hadvances.knows hon).hop (hadvances.descending (ht sender)) (Ne.symm hback)
    have hlast : (k - 1).toInt = k.toInt - 1 := toInt_sub_one hpos
    exact ⟨hs, hr, by omega, by rw [toInt_ttl]; omega, hway.mono (by rw [toInt_ttl]; omega),
      hnear.mono (by omega)⟩

/-- A node that does not keep a longer way than an answer comes by leaves all tables in order. -/
theorem orderly_react (ht : ∀ d, Descending tables d) (hcore : core.routing = tables b)
    (hfrom : FromNear src b msg) (h : Backed tables src b hops msg)
    (hkeeps : ¬ core.Overlooks b msg) :
    Orderly tables b (hops + 1) (core.react b src.addr msg) := by
  have hx : (∃ receiver id, msg = .send b receiver id) ∨ InMesh src.addr := by
    cases src with
    | server => exact .inl hfrom.2
    | node a => exact .inr (Adjacent.inMesh_left hfrom)
  cases msg with
  | send sender receiver id => exact orderly_send ht hcore hfrom h
  | direct sender receiver k id =>
    exact orderly_direct ht hcore hfrom.inMesh (hx.resolve_left nofun) h
  | inverse sender receiver k id => exact orderly_inverse ht hcore (hx.resolve_left nofun) h hkeeps

end MeshNet
