import MeshNet.Mesh.Flood
import MeshNet.Mesh.Loops
import Mathlib.Algebra.BigOperators.Group.Finset.Piecewise
import Mathlib.Algebra.Order.BigOperators.Group.Finset
import Mathlib.Data.FinEnum
import Mathlib.Data.Fintype.Option

/-!
# Coming to rest

Nothing that is sent about a message lasts: a copy leaves copies that may be sent on less often, or
an answer, and an answer leaves one that has a hop less before it. However far the packets have
come, the connections may deliver all that there is, so that nothing is left on its way.
-/

namespace MeshNet
open Library

local instance : Fintype Peer :=
  Fintype.ofEquiv (Option UInt8)
    ⟨fun o => o.elim .server .node, fun | .server => none | .node addr => some addr,
      fun o => by cases o <;> rfl, fun p => by cases p <;> rfl⟩

/-! ## What a packet may still cause -/

/-- More than as many packets as the packet may still cause. -/
def Msg.load : Msg → Nat
  | .send .. => 0
  | .direct _ _ timeToLive _ => 21 * 29 ^ timeToLive.toInt.toNat
  | .inverse _ _ timeToLive _ => timeToLive.toInt.toNat

/-- The packet is a copy of a message, or an answer that has a hop before it. -/
inductive Msg.Fades : Msg → Prop
  | direct (sender receiver : UInt8) (timeToLive : Int8) (id : UInt16) :
      Fades (.direct sender receiver timeToLive id)
  | inverse (sender receiver : UInt8) {timeToLive : Int8} (id : UInt16)
      (hpos : 0 < timeToLive.toInt) : Fades (.inverse sender receiver timeToLive id)

def loadOf (fs : List (Flight Msg)) : Nat := (fs.map fun f => f.packet.load).sum

namespace Protocol

/-- What all that is on its way between nodes may still cause. -/
def load (s : Protocol) : Nat := ∑ x, ∑ b, loadOf (s.wire (.node x) b)

/-- Connections between nodes deliver one after the other. -/
def handed (hops : List (UInt8 × UInt8)) : List Label :=
  hops.map fun hop => .deliver (.node hop.1) hop.2

end Protocol

namespace Mesh

/-- A connection delivers. -/
def Label.Delivers : Label → Prop
  | .client .. => False
  | .deliver .. => True

/-- Nothing is on its way. -/
def Quiet (m : Mesh) : Prop := ∀ src dst, m.wire src dst = []

/-- The server is told what nodes have written to it. -/
def told (srcs : List Peer) : List Label :=
  srcs.map fun src => .deliver src .server (.zeroed .ideal) .quiet

end Mesh

variable {b x : UInt8} {c : Core} {msg : Msg} {hops : Nat} {out : List (UInt8 × Msg)}
  {f : Flight Msg} {fs : List (Flight Msg)} {wire : Peer → UInt8 → List (Flight Msg)}
  {s : Protocol}

theorem load_flood (hb : InMesh b) {sender receiver : UInt8} {k : Int8} {id : UInt16}
    (hpos : 0 < k) : ((Core.flood b sender receiver k id).map fun o => o.2.load).sum <
      (Msg.direct sender receiver k id).load := by
  have hlast : (k - 1).toInt.toNat + 1 = k.toInt.toNat := by
    have hpos := Int8.lt_iff_toInt_lt.mp hpos
    rw [toInt_sub_one hpos]
    change 0 < _ at hpos
    omega
  have hcopies : (Core.flood b sender receiver k id).map (fun o => o.2.load) =
      List.replicate (fillNeighborsPort b).length (21 * 29 ^ (k - 1).toInt.toNat) := by
    rw [Core.flood, List.map_map]
    exact List.map_const' ..
  have hlen := Nat.mul_le_mul_right (21 * 29 ^ (k - 1).toInt.toNat) (length_fillNeighborsPort hb)
  have hpow : 0 < 29 ^ (k - 1).toInt.toNat := Nat.pow_pos (by decide)
  rw [hcopies, List.sum_replicate_nat, Msg.load, ← hlast, Nat.pow_succ]
  omega

theorem load_deliver (c : Core) (sender receiver : UInt8) (id : UInt16) :
    ((c.deliver sender receiver id).2.map fun o => o.2.load).sum ≤ 20 := by
  obtain ⟨-, heq⟩ | ⟨-, -, heq⟩ | ⟨-, -, heq⟩ := Core.deliver_cases c sender receiver id <;>
    rw [heq]
  · exact Nat.zero_le _
  · exact Nat.zero_le _
  · exact Nat.le_refl _

/-- What comes of a packet causes less than the packet may. -/
theorem load_react (hfades : msg.Fades) (hb : InMesh b) :
    ((c.react b x msg).2.map fun o => o.2.load).sum < msg.load := by
  cases hfades with
  | direct sender receiver k id =>
    have hpow : 0 < 29 ^ k.toInt.toNat := Nat.pow_pos (by decide)
    obtain ⟨-, heq⟩ | ⟨-, -, -, heq⟩ | ⟨hpos, -, -, heq⟩ :=
        Core.direct_cases b c x sender receiver k id <;>
      rw [Core.react, heq]
    · rw [List.map_nil, List.sum_nil, Msg.load]
      omega
    · have hle := load_deliver (c.takeIn x sender k id) sender receiver id
      rw [Msg.load]
      omega
    · exact load_flood hb hpos
  | @inverse sender receiver k id hpos =>
    obtain ⟨-, heq⟩ | ⟨-, -, heq⟩ := Core.inverse_cases b c x sender receiver k id <;>
      rw [Core.react, heq]
    · rw [List.map_nil, List.sum_nil, Msg.load]
      omega
    · rw [List.map_singleton, List.sum_singleton, Msg.load, Msg.load, toInt_sub_one hpos]
      omega

/-! ## What is on the connections -/

theorem loadOf_append (fs gs : List (Flight Msg)) : loadOf (fs ++ gs) = loadOf fs + loadOf gs := by
  rw [loadOf, List.map_append, List.sum_append, loadOf, loadOf]

/-- Every packet that is sent is on one connection. -/
theorem sum_loadOf_sent (hops : Nat) (out : List (UInt8 × Msg)) :
    ∑ b, loadOf (out.filterMap fun o => if o.1 = b then some ⟨o.2, hops⟩ else none) =
      (out.map fun o => o.2.load).sum := by
  induction out with
  | nil => exact Finset.sum_const_zero
  | cons o out ih =>
    have hhead : ∀ b, loadOf ((o :: out).filterMap fun o =>
          if o.1 = b then some ⟨o.2, hops⟩ else none) =
        (if o.1 = b then o.2.load else 0) +
          loadOf (out.filterMap fun o => if o.1 = b then some ⟨o.2, hops⟩ else none) := by
      intro b
      by_cases ho : o.1 = b
      · simp [ho, loadOf]
      · simp [ho]
    rw [Finset.sum_congr rfl fun b _ => hhead b, Finset.sum_add_distrib, ih,
      Finset.sum_ite_eq Finset.univ o.1, if_pos (Finset.mem_univ _), List.map_cons, List.sum_cons]

theorem sum_loadOf_emit (b : UInt8) (hops : Nat) (out : List (UInt8 × Msg))
    (wire : Peer → UInt8 → List (Flight Msg)) :
    ∑ y, ∑ a, loadOf (Protocol.emit (.node b) hops out wire (.node y) a) =
      ∑ y, ∑ a, loadOf (wire (.node y) a) + (out.map fun o => o.2.load).sum := by
  have hwire : ∀ y, ∑ a, loadOf (Protocol.emit (.node b) hops out wire (.node y) a) =
      ∑ a, loadOf (wire (.node y) a) + if b = y then (out.map fun o => o.2.load).sum else 0 := by
    intro y
    by_cases hy : b = y
    · subst hy
      simp only [Protocol.emit, if_true, loadOf_append, Finset.sum_add_distrib, sum_loadOf_sent]
    · have hne : Peer.node y ≠ Peer.node b := fun heq => hy (Peer.node.inj heq).symm
      simp only [Protocol.emit, if_neg hne, if_neg hy, Nat.add_zero]
  rw [Finset.sum_congr rfl fun y _ => hwire y, Finset.sum_add_distrib,
    Finset.sum_ite_eq Finset.univ b, if_pos (Finset.mem_univ _)]

theorem sum_loadOf_pop (hwire : wire (.node x) b = f :: fs) :
    ∑ y, ∑ a, loadOf (Protocol.pop (.node x) b wire (.node y) a) + f.packet.load =
      ∑ y, ∑ a, loadOf (wire (.node y) a) := by
  have hpop : ∀ y, ∑ a, loadOf (wire (.node y) a) =
      ∑ a, loadOf (Protocol.pop (.node x) b wire (.node y) a) +
        if x = y then f.packet.load else 0 := by
    intro y
    by_cases hy : x = y
    · subst hy
      have hfront : ∀ a, loadOf (wire (.node x) a) =
          loadOf (Protocol.pop (.node x) b wire (.node x) a) +
            if b = a then f.packet.load else 0 := by
        intro a
        by_cases ha : b = a
        · subst ha
          simp [Protocol.pop, hwire, loadOf, Nat.add_comm]
        · simp [Protocol.pop, ha, Ne.symm ha]
      rw [Finset.sum_congr rfl fun a _ => hfront a, Finset.sum_add_distrib,
        Finset.sum_ite_eq Finset.univ b, if_pos (Finset.mem_univ _), if_pos rfl]
    · have hne : Peer.node y ≠ Peer.node x := fun heq => hy (Peer.node.inj heq).symm
      simp [Protocol.pop, hne, hy]
  rw [Finset.sum_congr rfl fun y _ => hpop y, Finset.sum_add_distrib,
    Finset.sum_ite_eq Finset.univ x, if_pos (Finset.mem_univ _)]

/-- A connection that delivers a packet leaves less to be caused. -/
theorem load_step (hwire : s.wire (.node x) b = f :: fs) (hfades : f.packet.Fades)
    (hb : InMesh b) : (s.step (.deliver (.node x) b)).load < s.load := by
  have hpop := sum_loadOf_pop hwire
  have hless := load_react (c := s.core b) (x := x) hfades hb
  rw [Protocol.step_deliver_cons hwire, Protocol.load, sum_loadOf_emit, Protocol.load]
  rw [← hpop]
  exact Nat.add_lt_add_left hless _

/-- What is kept by every delivery holds when all has been delivered. -/
theorem Protocol.exists_quiet (I : Protocol → Prop)
    (hstep : ∀ s x b, I s → I (s.step (.deliver (.node x) b)))
    (hfades : ∀ s, I s → ∀ x b, ∀ f ∈ s.wire (.node x) b, f.packet.Fades ∧ InMesh b) (hs : I s) :
    ∃ hops, I (run Protocol.step s (handed hops)) ∧
      ∀ x b, (run Protocol.step s (handed hops)).wire (.node x) b = [] := by
  have hless : ∀ s, I s → (∀ x b, s.wire (.node x) b = []) ∨ ∃ hop : UInt8 × UInt8,
      I (s.step (.deliver (.node hop.1) hop.2)) ∧
        (s.step (.deliver (.node hop.1) hop.2)).load < s.load := by
    intro s hs
    by_cases hquiet : ∀ x b, s.wire (.node x) b = []
    · exact .inl hquiet
    · push Not at hquiet
      obtain ⟨x, b, hbusy⟩ := hquiet
      obtain ⟨f, fs, hwire⟩ := List.exists_cons_of_ne_nil hbusy
      obtain ⟨hf, hb⟩ := hfades s hs x b f (hwire ▸ List.mem_cons_self)
      exact .inr ⟨(x, b), hstep s x b hs, load_step hwire hf hb⟩
  obtain ⟨hops, hrun⟩ := exists_run_rest I _ load hless hs
  refine ⟨hops, ?_⟩
  unfold run handed at *
  rwa [List.foldl_map]

/-! ## The mesh -/

namespace Mesh

variable {z : Zlib} {pids : UInt8 → Int32} {fds : UInt8 ↪ Int} {id : UInt16} {m : Mesh}
  {I : Protocol → Prop}

/-- The mesh is where the protocol may be in a state of `I`. -/
def Matches (children : List Child) (I : Protocol → Prop) (m : Mesh) : Prop :=
  ∃ s, Refines children m s ∧ I s

theorem matches_step (h : m.Matches (start pids fds id).server.children I) {l : Label}
    (hl : l.Delivers) (hhealthy : l.Healthy)
    (hstep : ∀ s src b env senv, l = .deliver src (.node b) env senv →
      Refines (start pids fds id).server.children m s → I s → I (s.step (.deliver src b))) :
    (m.step z l).Matches (start pids fds id).server.children I := by
  obtain ⟨s, hrefines, hs⟩ := h
  refine ⟨_, refines_step hrefines hhealthy, ?_⟩
  cases l with
  | client fd packet senv => exact hl.elim
  | deliver src dst env senv =>
    cases dst with
    | server => exact hs
    | node addr => exact hstep s src addr env senv rfl hrefines hs

theorem delivers_handed {hops : List (UInt8 × UInt8)} : ∀ l ∈ handed hops, l.Delivers := by
  intro l hl
  obtain ⟨hop, -, rfl⟩ := List.mem_map.mp hl
  trivial

theorem delivers_told {srcs : List Peer} : ∀ l ∈ told srcs, l.Delivers ∧ l.Healthy := by
  intro l hl
  obtain ⟨src, -, rfl⟩ := List.mem_map.mp hl
  exact ⟨trivial, Net.ideal_healthy⟩

theorem protocol_handed (hops : List (UInt8 × UInt8)) :
    (handed hops).flatMap Label.protocol = Protocol.handed hops := by
  rw [handed, Protocol.handed, List.flatMap_map]
  exact List.flatMap_pure_eq_map ..

theorem refines_handed (h : Refines (start pids fds id).server.children m s)
    (hops : List (UInt8 × UInt8)) :
    Refines (start pids fds id).server.children (run (step z) m (handed hops))
      (run Protocol.step s (Protocol.handed hops)) := by
  rw [← protocol_handed]
  exact (steps_of_forall fun _ => healthy_handed).simulates _ _
    (fun _ _ _ hl h => refines_step h hl) h

/-- The server reads all that nodes have written to it, and nothing else changes. -/
theorem exists_told (z : Zlib) (m : Mesh) :
    ∃ srcs, (∀ src, (run (step z) m (told srcs)).wire src .server = []) ∧
      ∀ src b, (run (step z) m (told srcs)).wire src (.node b) = m.wire src (.node b) := by
  have hless : ∀ m' : Mesh, (∀ src b, m'.wire src (.node b) = m.wire src (.node b)) →
      (∀ src, m'.wire src .server = []) ∨ ∃ src : Peer,
        (∀ x b, (m'.step z (.deliver src .server (.zeroed .ideal) .quiet)).wire x (.node b) =
          m.wire x (.node b)) ∧
        ∑ x, ((m'.step z (.deliver src .server (.zeroed .ideal) .quiet)).wire x .server).length <
          ∑ x, (m'.wire x .server).length := by
    intro m' hsame
    by_cases hquiet : ∀ src, m'.wire src .server = []
    · exact .inl hquiet
    · push Not at hquiet
      obtain ⟨src, hbusy⟩ := hquiet
      obtain ⟨f, fs, hwire⟩ := List.exists_cons_of_ne_nil hbusy
      have hstep : (m'.step z (.deliver src .server (.zeroed .ideal) .quiet)).wire =
          pop src .server m'.wire := by
        simp only [step, hwire]
      refine .inr ⟨src, fun x b => ?_, ?_⟩ <;> rw [hstep]
      · rw [← hsame x b]
        simp [pop]
      · apply Finset.sum_lt_sum
        · intro x _
          unfold pop
          split
          · rw [List.length_tail]
            exact Nat.sub_le _ 1
          · exact Nat.le_refl _
        · exact ⟨src, Finset.mem_univ src, by simp [pop, hwire]⟩
  obtain ⟨srcs, hsame, hrest⟩ := exists_run_rest
    (fun m' : Mesh => ∀ src b, m'.wire src (.node b) = m.wire src (.node b))
    (fun m' => ∀ src, m'.wire src .server = []) (fun m' => ∑ x, (m'.wire x .server).length) hless
    fun _ _ => rfl
  refine ⟨srcs, ?_⟩
  unfold run told at *
  rw [List.foldl_map]
  exact ⟨hrest, hsame⟩

/-- All that is on its way may be delivered. -/
theorem Matches.exists_quiet (z : Zlib) (hstep : ∀ s src b, I s → I (s.step (.deliver src b)))
    (hserver : ∀ s, I s → ∀ b, s.wire .server b = [])
    (hfades : ∀ s, I s → ∀ x b, ∀ f ∈ s.wire (.node x) b, f.packet.Fades ∧ InMesh b)
    (h : m.Matches (start pids fds id).server.children I) :
    ∃ ls : List Label, (∀ l ∈ ls, l.Delivers ∧ l.Healthy) ∧ (run (step z) m ls).Quiet ∧
      (run (step z) m ls).Matches (start pids fds id).server.children I := by
  obtain ⟨s, hrefines, hs⟩ := h
  obtain ⟨hops, hI, hquiet⟩ :=
    Protocol.exists_quiet I (fun s x b => hstep s (.node x) b) hfades hs
  obtain ⟨srcs, hnone, hsame⟩ := exists_told z (run (step z) m (handed hops))
  have hls : ∀ l ∈ handed hops ++ told srcs, l.Delivers ∧ l.Healthy := fun l hl =>
    (List.mem_append.mp hl).elim (fun hl => ⟨delivers_handed l hl, healthy_handed l hl⟩)
      (delivers_told l)
  refine ⟨handed hops ++ told srcs, hls, fun src dst => ?_, ?_⟩
  · rw [run_append]
    cases dst with
    | server => exact hnone src
    | node b =>
      have hwire := (refines_handed (z := z) hrefines hops).wire src b
      have hempty : (run Protocol.step s (Protocol.handed hops)).wire src b = [] := by
        cases src with
        | server => exact hserver _ hI b
        | node x => exact hquiet x b
      rw [hempty, List.forall₂_nil_right_iff] at hwire
      rw [hsame, hwire]
  · exact (steps_of_forall fun _ => hls).invariant _
      (fun _ _ hl hm => matches_step hm hl.1 hl.2 fun s src b _ _ _ _ => hstep s src b)
      ⟨s, hrefines, hs⟩

end Mesh

end MeshNet
