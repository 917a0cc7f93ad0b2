import MeshNet.Library.Fair
import MeshNet.Mesh.Service

/-!
# Broadcasts and unicasts, neighbour by neighbour

What is under way of a broadcast or a unicast is between its sender and the neighbours, and with
each neighbour it comes to its own end. A neighbour of a broadcast is sent the message; a
neighbour of a unicast is invited to the contest, answers, and is sent the message or not.
-/

namespace MeshNet
open Library

/-- How far the sender and a neighbour have come. -/
inductive Stage where
  | idle | contest | answered | award | handled
  deriving DecidableEq

namespace Stage

/-- What is under way from the sender `a` to its neighbour `b`. -/
def toNeighbour (a b : UInt8) (k : UInt16) : Stage → List Letter
  | contest => [.contest a k]
  | award => [.plain (.send a b k)]
  | _ => []

/-- What is under way back from the neighbour `b`. -/
def toOrigin (b : UInt8) (k : UInt16) : Stage → List Letter
  | answered => [.first b k]
  | _ => []

/-- How often the neighbour has given the message to an app. -/
def handed : Stage → Nat
  | handled => 1
  | _ => 0

/-- The deliveries after which nothing is under way, the award of a contest apart. -/
def weight : Stage → Nat
  | contest => 2
  | answered => 1
  | award => 1
  | _ => 0

end Stage

/-- With each of the neighbours of `a` the message `k` is at its stage, and nowhere else. -/
structure Staged (a : UInt8) (k : UInt16) (stage : UInt8 → Stage)
    (v : Parties Peer UInt8 Nat Letter) : Prop where
  outside : ∀ b, ¬ Adjacent a b → stage b = .idle
  server : ∀ b, v.channel .server b = []
  out : ∀ b, v.channel (.node a) b = (stage b).toNeighbour a b k
  back : ∀ x, x ≠ a → v.channel (.node x) a = (stage x).toOrigin x k
  other : ∀ x b, x ≠ a → b ≠ a → v.channel (.node x) b = []
  state : ∀ b, v.state b = (stage b).handed

variable {a b dst : UInt8} {src : Peer} {k : UInt16} {stage : UInt8 → Stage} {next : Stage}
  {v v' : Parties Peer UInt8 Nat Letter} {l : Letter} {ls : List Letter} {s : Service}

/-! ## One neighbour after the other -/

theorem Adjacent.ne (h : Adjacent a b) : b ≠ a := by
  rintro rfl
  exact not_adjacent_self b h

/-- With one neighbour the message has come on. -/
theorem Staged.update (h : Staged a k stage v) (hb : Adjacent a b)
    (hout : v'.channel (.node a) b = next.toNeighbour a b k)
    (hback : v'.channel (.node b) a = next.toOrigin b k)
    (hchannel : ∀ x c, ¬ (x = .node a ∧ c = b) → ¬ (x = .node b ∧ c = a) →
      v'.channel x c = v.channel x c)
    (hstate : v'.state = Function.update v.state b next.handed) :
    Staged a k (Function.update stage b next) v' := by
  have hne : b ≠ a := hb.ne
  refine ⟨?_, ?_, ?_, ?_, ?_, ?_⟩
  · intro c hc
    rw [Function.update_of_ne (by rintro rfl; exact hc hb)]
    exact h.outside c hc
  · intro c
    rw [hchannel _ _ (by simp) (by simp), h.server]
  · intro c
    by_cases hc : c = b
    · subst hc
      rwa [Function.update_self]
    · rw [Function.update_of_ne hc, hchannel _ _ (by simp [hc]) (by simp [hne.symm]), h.out]
  · intro x hx
    by_cases hxb : x = b
    · subst hxb
      rwa [Function.update_self]
    · rw [Function.update_of_ne hxb, hchannel _ _ (by simp [hx]) (by simp [hxb]), h.back x hx]
  · intro x c hx hc
    rw [hchannel _ _ (by simp [hx]) (by simp [hc]), h.other x c hx hc]
  · intro c
    rw [hstate]
    by_cases hc : c = b
    · rw [hc, Function.update_self, Function.update_self]
    · rw [Function.update_of_ne hc, Function.update_of_ne hc, h.state]

/-- What is delivered next is between the sender and a neighbour, and is all there is. -/
theorem Staged.cases (h : Staged a k stage v) (hwire : v.channel src dst = l :: ls) :
    ls = [] ∧ ∃ b, Adjacent a b ∧
      (src = .node a ∧ dst = b ∧ stage b = .contest ∧ l = .contest a k ∨
        src = .node a ∧ dst = b ∧ stage b = .award ∧ l = .plain (.send a b k) ∨
        src = .node b ∧ dst = a ∧ stage b = .answered ∧ l = .first b k) := by
  have hadj : ∀ b, stage b ≠ .idle → Adjacent a b := fun b hb =>
    not_not.mp fun hno => hb (h.outside b hno)
  cases src with
  | server =>
    rw [h.server] at hwire
    cases hwire
  | node x =>
    by_cases hx : x = a
    · subst hx
      rw [h.out] at hwire
      have hdst := hadj dst
      cases hstage : stage dst <;> rw [hstage] at hwire hdst <;>
        simp only [Stage.toNeighbour] at hwire <;> cases hwire
      · exact ⟨rfl, dst, hdst nofun, .inl ⟨rfl, rfl, hstage, rfl⟩⟩
      · exact ⟨rfl, dst, hdst nofun, .inr (.inl ⟨rfl, rfl, hstage, rfl⟩)⟩
    · by_cases hdst : dst = a
      · subst hdst
        rw [h.back x hx] at hwire
        have hx' := hadj x
        cases hstage : stage x <;> rw [hstage] at hwire hx' <;>
          simp only [Stage.toOrigin] at hwire <;> cases hwire
        exact ⟨rfl, x, hx' nofun, .inr (.inr ⟨rfl, rfl, hstage, rfl⟩)⟩
      · rw [h.other x dst hx hdst] at hwire
        cases hwire

/-- What a delivery makes of the stage of the neighbour that it is from or to. -/
inductive Stage.Turn (known : Prop) : Stage → Stage → Prop
  | answer : Turn known .contest .answered
  | hand : Turn known .award .handled
  | win (h : ¬ known) : Turn known .answered .award
  | lose (h : known) : Turn known .answered .idle

/-- The node has heard of the message. -/
def Service.Knows (k : UInt16) (s : Service) (a : UInt8) : Prop :=
  (s.state a).messages.lookup k ≠ none

theorem knows_deliver_of_ne (hne : dst ≠ a) :
    (s.step (.deliver src dst)).Knows k a ↔ s.Knows k a := by
  cases hwire : s.channel src dst with
  | nil =>
    have hsame : (s.step (.deliver src dst)).state = s.state :=
      congrArg Parties.state (Parties.deliver_nil hwire)
    rw [Service.Knows, hsame, Service.Knows]
  | cons l ls =>
    rw [Service.Knows, Service.state_deliver hwire, Function.update_of_ne hne.symm, Service.Knows]

/-- A neighbour is invited to the contest and answers. -/
theorem staged_contest (h : Staged a k stage (s.about k)) (hb : Adjacent a b)
    (hstage : stage b = .contest) (hwire : s.channel (.node a) b = .contest a k :: ls) :
    Staged a k (Function.update stage b .answered)
      ((s.step (.deliver (.node a) b)).about k) := by
  have hne : b ≠ a := hb.ne
  rw [Service.about_deliver (k := k) hwire rfl]
  refine h.update hb ?_ ?_ ?_ ?_
  · simp [Core.serve, post_singleton, hne, h.out, hstage, Stage.toNeighbour]
  · simp [Core.serve, post_singleton, pull_eq, hne, h.back, hstage, Stage.toOrigin]
  · intro x c hout hback
    simp only [Core.serve, post_singleton, if_neg hback, pull_of_ne hout]
  · have hcount : (s.state b).handled.count k = Stage.handed .contest := hstage ▸ h.state b
    rw [Core.serve, hcount]
    rfl

/-- A neighbour is sent the message. -/
theorem staged_award (h : Staged a k stage (s.about k)) (hb : Adjacent a b)
    (hstage : stage b = .award) (hwire : s.channel (.node a) b = .plain (.send a b k) :: ls) :
    Staged a k (Function.update stage b .handled)
      ((s.step (.deliver (.node a) b)).about k) := by
  have hne : b ≠ a := hb.ne
  have hserve : Core.serve b (.node a) (s.state b) (.plain (.send a b k)) =
      ({ s.state b with handled := (s.state b).handled ++ [k] }, []) := by
    simp [Core.serve, Core.react, Core.send]
  rw [Service.about_deliver (k := k) hwire rfl, hserve, post_nil]
  refine h.update hb ?_ ?_ ?_ ?_
  · simp [h.out, hstage, Stage.toNeighbour]
  · simp [pull_eq, hne, h.back, hstage, Stage.toOrigin]
  · intro x c hout _
    exact pull_of_ne hout
  · have hcount : (s.state b).handled.count k = Stage.handed .award := hstage ▸ h.state b
    simp [hcount, Stage.handed]

/-- An answer comes back, which wins the contest if it is the first. -/
theorem staged_answered (h : Staged a k stage (s.about k)) (hb : Adjacent a b)
    (hstage : stage b = .answered) (hwire : s.channel (.node b) a = .first b k :: ls) :
    Staged a k
        (Function.update stage b (if (s.state a).messages.lookup k = none then .award else .idle))
        ((s.step (.deliver (.node b) a)).about k) ∧
      (s.step (.deliver (.node b) a)).Knows k a := by
  have hne : b ≠ a := hb.ne
  have hstate : Function.update (s.about k).state a ((s.state a).handled.count k) =
      Function.update (s.about k).state b 0 := by
    have hcount : (s.about k).state b = 0 := (h.state b).trans (by rw [hstage]; rfl)
    rw [← hcount, Function.update_eq_self]
    exact Function.update_eq_self a _
  constructor
  · rw [Service.about_deliver (k := k) hwire rfl, Core.serve, Core.first]
    dsimp only
    rw [hstate]
    split
    · refine h.update hb ?_ ?_ ?_ rfl
      · simp [post_singleton, pull_eq, hne.symm, h.out, hstage, Stage.toNeighbour]
      · simp [post_singleton, hne, h.back, hstage, Stage.toOrigin]
      · intro x c hout hback
        simp only [post_singleton, if_neg hout, pull_of_ne hback]
    · rw [post_nil]
      refine h.update hb ?_ ?_ ?_ rfl
      · simp [pull_eq, hne.symm, h.out, hstage, Stage.toNeighbour]
      · simp [h.back, hne, hstage, Stage.toOrigin]
      · intro x c _ hback
        exact pull_of_ne hback
  · rw [Service.Knows, Service.state_deliver hwire, Function.update_self]
    exact (MessageTable.marked_answered _ k).ne_none

theorem staged_deliver (h : Staged a k stage (s.about k)) (hwire : s.channel src dst = l :: ls)
    (hl : l.id = k) :
    ∃ b next, Adjacent a b ∧ Stage.Turn (s.Knows k a) (stage b) next ∧
      Staged a k (Function.update stage b next) ((s.step (.deliver src dst)).about k) ∧
      ((s.step (.deliver src dst)).Knows k a ↔ s.Knows k a ∨ stage b = .answered) := by
  obtain ⟨-, b, hb, ⟨rfl, rfl, hstage, rfl⟩ | ⟨rfl, rfl, hstage, rfl⟩ |
    ⟨rfl, rfl, hstage, rfl⟩⟩ := h.cases (Service.about_channel_cons hwire hl)
  · refine ⟨dst, .answered, hb, hstage ▸ .answer, staged_contest h hb hstage hwire, ?_⟩
    simp [knows_deliver_of_ne hb.ne, hstage]
  · refine ⟨dst, .handled, hb, hstage ▸ .hand, staged_award h hb hstage hwire, ?_⟩
    simp [knows_deliver_of_ne hb.ne, hstage]
  · obtain ⟨hstaged, hknows⟩ := staged_answered h hb hstage hwire
    refine ⟨b, _, hb, ?_, hstaged, by simp [hknows, hstage]⟩
    rw [hstage]
    split
    · exact .win (not_not.mpr ‹_›)
    · exact .lose ‹_›

/-! ## What is left to be done -/

/-- The deliveries after which nothing is under way, if no contest is won. -/
def Stage.total (a : UInt8) (stage : UInt8 → Stage) : Nat :=
  ((neighbours a).map fun b => (stage b).weight).sum

theorem Stage.total_update (stage : UInt8 → Stage) (hb : Adjacent a b) (next : Stage) :
    Stage.total a (Function.update stage b next) + (stage b).weight =
      Stage.total a stage + next.weight := by
  unfold Stage.total
  have hmem : b ∈ neighbours a := mem_neighbours.mpr hb
  have hnodup := nodup_neighbours a
  generalize neighbours a = bs at hmem hnodup
  induction bs with
  | nil => cases hmem
  | cons c bs ih =>
    obtain ⟨hc, hbs⟩ := List.nodup_cons.mp hnodup
    rw [List.map_cons, List.map_cons, List.sum_cons, List.sum_cons]
    by_cases heq : b = c
    · subst heq
      have hsame : bs.map (fun d => (Function.update stage b next d).weight) =
          bs.map fun d => (stage d).weight :=
        List.map_congr_left fun d hd => by
          rw [Function.update_of_ne (by rintro rfl; exact hc hd)]
      rw [Function.update_self, hsame]
      omega
    · rw [Function.update_of_ne (Ne.symm heq)]
      have := ih ((List.mem_cons.mp hmem).resolve_left heq) hbs
      omega

theorem Stage.weight_le_total (stage : UInt8 → Stage) (hb : Adjacent a b) :
    (stage b).weight ≤ Stage.total a stage := by
  have : Stage.total a (Function.update stage b .handled) + (stage b).weight =
      Stage.total a stage + 0 := Stage.total_update stage hb .handled
  omega

theorem Stage.total_eq_zero (h : ∀ b, Adjacent a b → (stage b).weight = 0) :
    Stage.total a stage = 0 := by
  refine List.sum_eq_zero_iff_forall_eq_nat.mpr fun n hn => ?_
  obtain ⟨b, hb, rfl⟩ := List.mem_map.mp hn
  exact h b (mem_neighbours.mp hb)

/-- Only the request is under way, on the connection from the server to `a`. -/
structure Requested (a : UInt8) (l : Letter) (v : Parties Peer UInt8 Nat Letter) : Prop where
  channel : ∀ src b, v.channel src b = if src = .server ∧ b = a then [l] else []
  state : ∀ b, v.state b = 0

/-- The stage at which the message is with all neighbours at once. -/
def Stage.all (a : UInt8) (stage : Stage) : UInt8 → Stage :=
  fun b => if Adjacent a b then stage else .idle

theorem Stage.total_all (a : UInt8) (stage : Stage) :
    Stage.total a (Stage.all a stage) = (neighbours a).length * stage.weight := by
  have hsame : (neighbours a).map (fun b => (Stage.all a stage b).weight) =
      (neighbours a).map fun _ => stage.weight :=
    List.map_congr_left fun b hb => by rw [Stage.all, if_pos (mem_neighbours.mp hb)]
  rw [Stage.total, hsame, List.map_const', List.sum_replicate_nat]

/-- What is delivered next is the request. -/
theorem Requested.cases (h : Requested a l v) {l' : Letter} (hwire : v.channel src dst = l' :: ls) :
    src = .server ∧ dst = a ∧ l' = l := by
  rw [h.channel] at hwire
  split at hwire
  · rename_i hhere
    exact ⟨hhere.1, hhere.2, (List.cons.inj hwire).1.symm⟩
  · cases hwire

/-- The sender turns to all its neighbours. -/
theorem Requested.deliver (h : Requested a l (s.about k)) (hl : l.id = k)
    (hwire : s.channel .server a = l :: ls) {f : UInt8 → Letter}
    (hserve : Core.serve a .server (s.state a) l =
      (s.state a, (neighbours a).map fun b => (b, f b)))
    (hf : ∀ b, f b = .contest a k ∧ next = .contest ∨ f b = .plain (.send a b k) ∧ next = .award) :
    Staged a k (Stage.all a next) ((s.step (.deliver .server a)).about k) := by
  have hcount : Function.update (s.about k).state a ((s.state a).handled.count k) =
      (s.about k).state := Function.update_eq_self a _
  have hpull : ∀ x b, pull .server a (s.about k).channel x b = [] := by
    intro x b
    rw [pull_eq, h.channel]
    split <;> simp_all
  have hchannel : ∀ b, post (.node a) ((neighbours a).map fun b => (b, f b))
      (pull .server a (s.about k).channel) (.node a) b = if Adjacent a b then [f b] else [] := by
    intro b
    rw [post_each (nodup_neighbours a), hpull, List.nil_append]
    simp only [mem_neighbours]
  have hother : ∀ x b, x ≠ .node a → post (.node a) ((neighbours a).map fun b => (b, f b))
      (pull .server a (s.about k).channel) x b = [] := by
    intro x b hx
    rw [post_of_ne hx, hpull]
  have hquiet : next.handed = 0 ∧ ∀ b, next.toOrigin b k = [] := by
    obtain ⟨-, rfl⟩ | ⟨-, rfl⟩ := hf 0 <;> exact ⟨rfl, fun _ => rfl⟩
  rw [Service.about_deliver hwire hl, hserve, hcount]
  refine ⟨?_, ?_, ?_, ?_, ?_, ?_⟩
  · intro b hb
    rw [Stage.all, if_neg hb]
  · intro b
    exact hother .server b nofun
  · intro b
    refine (hchannel b).trans ?_
    unfold Stage.all
    split
    · obtain ⟨heq, rfl⟩ | ⟨heq, rfl⟩ := hf b <;> rw [heq] <;> rfl
    · rfl
  · intro x hx
    refine (hother _ a (by simpa using hx)).trans ?_
    unfold Stage.all
    split
    · exact (hquiet.2 x).symm
    · rfl
  · intro x b hx _
    exact hother _ b (by simpa using hx)
  · intro b
    refine (h.state b).trans ?_
    unfold Stage.all
    split
    · exact hquiet.1.symm
    · rfl

end MeshNet
