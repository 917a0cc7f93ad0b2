import MeshNet.Mesh.Issued
import MeshNet.Mesh.Offering

/-!
# What becomes of a message

A client asks for a message among any other requests and deliveries. The apps of all neighbours
get a broadcast, those of one neighbour a unicast, and no message comes to an app of a node twice.
On connections that go on delivering, broadcasts and unicasts come to their end.
-/

namespace MeshNet
open Library

namespace Mesh

def Call.isClient : Call → Bool
  | .client .. => true
  | .deliver .. => false

/-- How many messages clients ask for. -/
def asks (is : List Call) : Nat := is.countP Call.isClient

/-- The frame brings a node the message `k`. -/
def Brings (k : UInt16) (f : Flight (List UInt8)) : Prop :=
  messageId (.zeroed .ideal, f.packet) = some k

/-- No frame with the message `k` is on its way to a node. -/
def Clear (k : UInt16) (m : Mesh) : Prop :=
  ∀ src b, ∀ f ∈ m.wire src (.node b), ¬ Brings k f

/-- A node is delivered a frame with the message `k`. -/
def Concerns (k : UInt16) (m : Mesh) : Call → Prop
  | .deliver src (.node b) _ _ => ∃ f ∈ (m.wire src (.node b)).head?, Brings k f
  | _ => False

/-- The connection from `src` to `dst` delivers. -/
def Call.Delivers (src dst : Peer) : Call → Prop
  | .deliver src' dst' _ _ => src' = src ∧ dst' = dst
  | .client .. => False

instance (k : UInt16) (f : Flight (List UInt8)) : Decidable (Brings k f) :=
  inferInstanceAs (Decidable (_ = _))

instance (k : UInt16) (m : Mesh) (i : Call) : Decidable (m.Concerns k i) :=
  match i with
  | .deliver src (.node b) _ _ =>
    inferInstanceAs (Decidable (∃ f ∈ (m.wire src (.node b)).head?, Brings k f))
  | .deliver _ .server _ _ => isFalse id
  | .client .. => isFalse id

/-- The network is healthy, and the number that the server gives out is one of `ids`, and not `k`
again. -/
def Listed (ids : List UInt16) (k : UInt16) (m : Mesh) (i : Call) : Prop :=
  i.Healthy ∧ (i.isClient = true → m.server.appMsgId ∈ ids ∧ m.server.appMsgId ≠ k)

/-- The mesh offers the service, and clients have asked for `n` messages. -/
def Issues (children : List Child) (first : UInt16) (n : Nat) (m : Mesh) : Prop :=
  ∃ s, Offers children m s ∧ s.Issued first n

end Mesh

open Mesh (asks)

variable {z : Zlib} {m : Mesh} {s : Service} {children : List Child} {src : Peer} {l : Letter}
  {k : UInt16} {a b : UInt8} {n : Nat} {ids : List UInt16} {i : Mesh.Call} {is : List Mesh.Call}
  {pids : UInt8 → Int32} {fds : UInt8 ↪ Int} {id : UInt16}

/-! ## The same message on both levels -/

theorem messageId_letterOf {bytes : List UInt8} (h : LetterOf src bytes l) (env : Env) :
    messageId (env, bytes) = some l.id := by
  cases h with
  | plain h =>
    cases h with
    | request hq buf | send hq buf => rw [messageId, receive_packet rfl hq.fits]; rfl
    | direct hq _ buf | inverse hq _ buf => rw [messageId, receive_packet rfl hq.fits]; rfl
  | broadcast hq buf | unicast hq buf => rw [messageId, receive_packet rfl hq]; rfl
  | contest hc _ buf | first hc _ buf => rw [messageId, receive_contest rfl hc]; rfl

theorem brings_letterOf {f : Flight (List UInt8)} (h : LetterOf src f.packet l) :
    Mesh.Brings k f ↔ l.id = k := by
  rw [Mesh.Brings, messageId_letterOf h, Option.some_inj]

theorem Offers.clear (h : Offers children m s) (hclear : m.Clear k) : s.Clear k := by
  intro src b l hl hk
  have hwire := h.wire src b
  obtain ⟨i, hi, rfl⟩ := List.mem_iff_getElem.mp hl
  have hi' : i < (m.wire src (.node b)).length := hwire.length_eq ▸ hi
  have hletter := hwire.get hi' hi
  exact hclear src b _ (List.getElem_mem hi') ((brings_letterOf hletter).mpr hk)

theorem Offers.concerns (h : Offers children m s) {dst : UInt8} {env : Env} {senv : ServerEnv} :
    m.Concerns k (.deliver src (.node dst) env senv) ↔ s.Concerns k (.deliver src dst) := by
  have hwire := h.wire src dst
  unfold Mesh.Concerns Service.Concerns
  cases hwire' : m.wire src (.node dst) with
  | nil =>
    rw [hwire', List.forall₂_nil_left_iff] at hwire
    simp [hwire, hwire']
  | cons f fs =>
    rw [hwire', List.forall₂_cons_left_iff] at hwire
    obtain ⟨l, ls, hletter, -, hchannel⟩ := hwire
    simp [hwire', hchannel, brings_letterOf hletter]

theorem appCalls_core (n : Node) (k : UInt16) : n.link.appCalls k = n.core.handled.count k := by
  simp only [Link.appCalls, Node.core, List.count_filterMap]
  refine List.countP_congr fun e _ => ?_
  cases e <;> simp [Event.appId?]

theorem appCalls_pos {l : Link} : 0 < l.appCalls k ↔
    ∃ given accepted left, .app given accepted left ∈ l.trace ∧ given.id = k := by
  rw [Link.appCalls, List.countP_pos_iff]
  constructor
  · rintro ⟨e, he, hid⟩
    cases e with
    | app given accepted left => exact ⟨given, accepted, left, he, beq_iff_eq.mp hid⟩
    | send | reply => cases hid
  · rintro ⟨given, accepted, left, he, hid⟩
    exact ⟨_, he, beq_iff_eq.mpr hid⟩

theorem Offers.appCalls (h : Offers children m s) (b : UInt8) (k : UInt16) :
    (m.node b).link.appCalls k = (s.state b).handled.count k := by
  rw [appCalls_core, h.core]

/-! ## Step by step -/

theorem issues_start (pids : UInt8 → Int32) (fds : UInt8 ↪ Int) (id : UInt16) :
    Mesh.Issues (Mesh.start pids fds id).server.children id 0 (Mesh.start pids fds id) :=
  ⟨_, offers_start pids fds id, issued_start⟩

theorem issues_call (hi : i.Healthy)
    (h : Mesh.Issues (Mesh.start pids fds id).server.children id n m) :
    Mesh.Issues (Mesh.start pids fds id).server.children id (n + asks [i]) (m.call z i) := by
  obtain ⟨s, hoffers, hissued⟩ := h
  refine ⟨_, offers_call hoffers hi, ?_⟩
  cases i with
  | client req fd packet senv => exact issued_client hissued req
  | deliver src dst env senv =>
    cases dst with
    | server => exact hissued
    | node b => exact issued_deliver hissued src b

theorem asks_cons (i : Mesh.Call) (is : List Mesh.Call) : asks (i :: is) = asks [i] + asks is := by
  simp only [asks, List.countP_cons, List.countP_nil]
  omega

theorem issues_run (his : ∀ i ∈ is, i.Healthy)
    (h : Mesh.Issues (Mesh.start pids fds id).server.children id n m) :
    Mesh.Issues (Mesh.start pids fds id).server.children id (n + asks is)
      (run (Mesh.call z) m is) := by
  induction is generalizing n m with
  | nil => exact h
  | cons i is ih =>
    obtain ⟨hi, his⟩ := List.forall_mem_cons.mp his
    rw [asks_cons, ← Nat.add_assoc]
    exact ih his (issues_call hi h)

/-- The numbers of the messages that are asked for from here on. -/
theorem listed_issued {j N : Nat} (hi : i.Healthy)
    (h : Mesh.Issues (Mesh.start pids fds id).server.children id j m) (hnj : n < j)
    (hjN : j + asks [i] ≤ N) (hN : N ≤ 65536) :
    Mesh.Listed (issued id N) (id + UInt16.ofNat n) m i := by
  obtain ⟨s, hoffers, hissued⟩ := h
  refine ⟨hi, fun hclient => ?_⟩
  have hask : asks [i] = 1 := by simp [asks, hclient]
  rw [hoffers.nextId, hissued.nextId]
  exact ⟨mem_issued.mpr ⟨j, by omega, rfl⟩, issued_ne hnj (by omega)⟩

theorem steps_listed {j N : Nat} (his : ∀ i ∈ is, i.Healthy)
    (h : Mesh.Issues (Mesh.start pids fds id).server.children id j m) (hnj : n < j)
    (hjN : j + asks is ≤ N) (hN : N ≤ 65536) :
    Steps (Mesh.call z) (Mesh.Listed (issued id N) (id + UInt16.ofNat n)) m is := by
  induction is generalizing j m with
  | nil => trivial
  | cons i is ih =>
    obtain ⟨hi, his⟩ := List.forall_mem_cons.mp his
    rw [asks_cons] at hjN
    exact ⟨listed_issued hi h hnj (by omega) hN,
      ih his (issues_call hi h) (by omega) (by omega)⟩

/-- A step of the mesh is one of the service, or none that matters to it. -/
theorem offers_listed (h : Offers (Mesh.start pids fds id).server.children m s)
    (hi : m.Listed ids k i) :
    (∃ j, i.service = some j ∧ s.Listed ids k j ∧
      Offers (Mesh.start pids fds id).server.children (m.call z i) (s.step j)) ∨
    i.service = none ∧ Offers (Mesh.start pids fds id).server.children (m.call z i) s := by
  have hnext := offers_call (z := z) h hi.1
  cases i with
  | client req fd packet senv =>
    obtain ⟨hmem, hne⟩ := hi.2 rfl
    rw [h.nextId] at hmem hne
    exact .inl ⟨.client req packet.senderAddr packet.receiverAddr, rfl, ⟨hmem, hne⟩, hnext⟩
  | deliver src dst env senv =>
    cases dst with
    | server => exact .inr ⟨rfl, hnext⟩
    | node b => exact .inl ⟨.deliver src b, rfl, trivial, hnext⟩

/-- What counts down for the service does so for the mesh. -/
theorem countsDown_call (z : Zlib) (pids : UInt8 → Int32) (fds : UInt8 ↪ Int) (id : UInt16)
    {P : Mesh → Mesh.Call → Prop} {P' : Service → Service.Label → Prop} {I : Nat → Service → Prop}
    (hP : ∀ m s i, Offers (Mesh.start pids fds id).server.children m s → P m i →
      ∃ j, i.service = some j ∧ P' s j)
    (h : CountsDown Service.step (Service.Listed ids k) P' I) :
    CountsDown (Mesh.call z) (Mesh.Listed ids k) P fun n m =>
      ∃ s, Offers (Mesh.start pids fds id).server.children m s ∧ I n s := by
  refine h.pullback fun m s i hi hoffers => ?_
  obtain ⟨j, hj, hlisted, hnext⟩ | ⟨hnone, hnext⟩ := offers_listed (z := z) hoffers hi
  · refine .inl ⟨j, hlisted, hnext, fun hp => ?_⟩
    obtain ⟨j', hj', hp'⟩ := hP m s i hoffers hp
    cases hj.symm.trans hj'
    exact hp'
  · refine .inr ⟨hnext, fun hp => ?_⟩
    obtain ⟨j, hj, -⟩ := hP m s i hoffers hp
    cases hnone.symm.trans hj

/-- What is delivered about a message is about it for the service. -/
theorem Offers.exists_concerns (h : Offers children m s) (hi : m.Concerns k i) :
    ∃ j, i.service = some j ∧ s.Concerns k j := by
  cases i with
  | client => exact hi.elim
  | deliver src dst env senv =>
    cases dst with
    | server => exact hi.elim
    | node b => exact ⟨.deliver src b, rfl, h.concerns.mp hi⟩

/-- What the service keeps, the mesh keeps. -/
theorem kept_call (z : Zlib) (pids : UInt8 → Int32) (fds : UInt8 ↪ Int) (id : UInt16)
    {I : Service → Prop} (h : ∀ s j, s.Listed ids k j → I s → I (s.step j))
    (hi : m.Listed ids k i)
    (hm : ∃ s, Offers (Mesh.start pids fds id).server.children m s ∧ I s) :
    ∃ s, Offers (Mesh.start pids fds id).server.children (m.call z i) s ∧ I s := by
  obtain ⟨s, hoffers, hs⟩ := hm
  obtain ⟨j, -, hj, hnext⟩ | ⟨-, hnext⟩ := offers_listed (z := z) hoffers hi
  · exact ⟨_, hnext, h s j hj hs⟩
  · exact ⟨s, hnext, hs⟩

/-! ## Fair connections -/

theorem exists_emit {x y p : Peer} {hops : Nat} (out : List (Peer × List UInt8))
    (wire : Peer → Peer → List (Flight (List UInt8))) :
    ∃ ms, Mesh.emit p hops out wire x y = wire x y ++ ms := by
  unfold Mesh.emit
  split
  · exact ⟨_, rfl⟩
  · exact ⟨[], (List.append_nil _).symm⟩

/-- Until a connection delivers, what is on it stays in its place. -/
theorem wire_call_of_not {x y : Peer} (hi : ¬ i.Delivers x y) :
    ∃ ms, (m.call z i).wire x y = m.wire x y ++ ms := by
  cases i with
  | client req fd packet senv => exact exists_emit _ _
  | deliver src dst env senv =>
    have hpop : Mesh.pop src dst m.wire x y = m.wire x y :=
      if_neg fun hhere => hi ⟨hhere.1.symm, hhere.2.symm⟩
    simp only [Mesh.call, Mesh.step]
    split
    · exact ⟨[], (List.append_nil _).symm⟩
    · exact ⟨[], hpop.trans (List.append_nil _).symm⟩
    · rw [← hpop]
      exact exists_emit _ _

theorem wire_call {x y : Peer} (hi : i.Delivers x y) :
    ∃ ms, (m.call z i).wire x y = (m.wire x y).tail ++ ms := by
  cases i with
  | client req fd packet senv => exact hi.elim
  | deliver src dst env senv =>
    obtain ⟨rfl, rfl⟩ := hi
    have hpop : Mesh.pop src dst m.wire src dst = (m.wire src dst).tail := if_pos ⟨rfl, rfl⟩
    simp only [Mesh.call, Mesh.step]
    split
    · rename_i hwire
      exact ⟨[], by rw [hwire]; rfl⟩
    · exact ⟨[], hpop.trans (List.append_nil _).symm⟩
    · rw [← hpop]
      exact exists_emit _ _

/-- What counts down comes to its end if every connection goes on delivering, -/
theorem exists_ended {I : Nat → Service → Prop} {calls : Nat → Mesh.Call} {l : Nat}
    (h : CountsDown Service.step (Service.Listed ids k) (Service.Concerns k) I)
    (hzero : ∀ n s, I n s → s.Clear k → n = 0)
    (hlisted : ∀ n, (endless (Mesh.call z) m calls n).Listed ids k (calls n))
    (hfair : ∀ src b, Recurs calls (Mesh.Call.Delivers src (.node b)))
    (hm : ∃ s, Offers (Mesh.start pids fds id).server.children m s ∧ I l s) :
    ∃ n, ∃ s, Offers (Mesh.start pids fds id).server.children
      (endless (Mesh.call z) m calls n) s ∧ I 0 s := by
  have hdown := countsDown_call z pids fds id (fun _ _ _ => Offers.exists_concerns) h
  have hagain : ∀ n l, (∃ s, Offers (Mesh.start pids fds id).server.children
      (endless (Mesh.call z) m calls n) s ∧ I l s) →
      ¬ (endless (Mesh.call z) m calls n).Clear k →
      ∃ j, (endless (Mesh.call z) m calls (n + j)).Concerns k (calls (n + j)) := by
    intro n l _ hunder
    simp only [Mesh.Clear, not_forall, not_not] at hunder
    obtain ⟨src, b, f, hf, hbrings⟩ := hunder
    have hother : ∀ (m : Mesh) i, ¬ i.Delivers src (.node b) →
        ∃ fs, (m.call z i).wire src (.node b) = m.wire src (.node b) ++ fs :=
      fun _ _ hi => wire_call_of_not hi
    obtain ⟨j, hj, fs, hfs⟩ := exists_served (fun m : Mesh => m.wire src (.node b)) hother
      (hfair src b) (fun _ _ hi => wire_call hi) hf
    refine ⟨j, ?_⟩
    generalize calls (n + j) = i at hj
    cases i with
    | client req fd packet senv => exact hj.elim
    | deliver src' dst' env senv =>
      obtain ⟨rfl, rfl⟩ := hj
      exact ⟨f, by rw [hfs]; rfl, hbrings⟩
  obtain ⟨n₀, l', ⟨s, hoffers, hl'⟩, hclear⟩ := hdown.exists_rest hlisted hagain (n := 0) hm
  exact ⟨_, s, hoffers, hzero l' s hl' (hoffers.clear hclear) ▸ hl'⟩

/-- and what has ended has ended. -/
theorem still_ended {I : Nat → Service → Prop} {calls : Nat → Mesh.Call}
    (h : CountsDown Service.step (Service.Listed ids k) (Service.Concerns k) I)
    (hlisted : ∀ n, (endless (Mesh.call z) m calls n).Listed ids k (calls n)) {n₀ : Nat}
    (hm : ∃ s, Offers (Mesh.start pids fds id).server.children
      (endless (Mesh.call z) m calls n₀) s ∧ I 0 s) {n : Nat} (hn : n₀ ≤ n) :
    ∃ s, Offers (Mesh.start pids fds id).server.children
      (endless (Mesh.call z) m calls n) s ∧ I 0 s := by
  obtain ⟨j, rfl⟩ := Nat.exists_eq_add_of_le hn
  obtain ⟨l, hle, hl⟩ :=
    (countsDown_call z pids fds id (fun _ _ _ => Offers.exists_concerns) h).kept hlisted hm j
  rwa [Nat.le_zero.mp hle] at hl

/-! ## What a client has asked for -/

section
variable {before after : List Mesh.Call} {req : Request} {fd : Int} {packet : NodePacket}
  {senv : ServerEnv}
variable (z pids fds id)

/-- The mesh in which a client has just asked for a message. -/
theorem exists_asked (hbefore : ∀ i ∈ before, i.Healthy)
    (hask : (Mesh.Call.client req fd packet senv).Healthy) :
    ∃ s : Service, s.Issued id (asks before) ∧
      Offers (Mesh.start pids fds id).server.children
        ((run (Mesh.call z) (Mesh.start pids fds id) before).call z (.client req fd packet senv))
        (s.step (.client req packet.senderAddr packet.receiverAddr)) := by
  obtain ⟨s, hoffers, hissued⟩ := issues_run (z := z) hbefore (issues_start pids fds id)
  rw [Nat.zero_add] at hissued
  exact ⟨s, hissued, offers_call hoffers hask⟩

theorem exists_broadcasting (hbefore : ∀ i ∈ before, i.Healthy)
    (hask : (Mesh.Call.client .broadcast fd packet senv).Healthy)
    (hfew : asks before < 65536) (hs : InMesh packet.senderAddr) :
    ∃ s : Service, s.Issued id (asks before + 1) ∧
      Offers (Mesh.start pids fds id).server.children
        ((run (Mesh.call z) (Mesh.start pids fds id) before).call z
          (.client .broadcast fd packet senv)) s ∧
      Broadcasting packet.senderAddr (id + UInt16.ofNat (asks before))
        (1 + (neighbours packet.senderAddr).length) s := by
  obtain ⟨s, hissued, hoffers⟩ := exists_asked z pids fds id hbefore hask
  exact ⟨_, issued_client hissued _, hoffers,
    .asked (requested_client hissued hfew hs .broadcast) rfl⟩

theorem exists_contesting (hbefore : ∀ i ∈ before, i.Healthy)
    (hask : (Mesh.Call.client .unicast fd packet senv).Healthy)
    (hfew : asks before < maxMessageData) (hs : InMesh packet.senderAddr) :
    ∃ s : Service, s.Issued id (asks before + 1) ∧
      Offers (Mesh.start pids fds id).server.children
        ((run (Mesh.call z) (Mesh.start pids fds id) before).call z
          (.client .unicast fd packet senv)) s ∧
      Contesting packet.senderAddr (id + UInt16.ofNat (asks before))
        (2 + (neighbours packet.senderAddr).length * 2) s := by
  have hsmall : maxMessageData < 65536 := by decide
  obtain ⟨s, hissued, hoffers⟩ := exists_asked z pids fds id hbefore hask
  exact ⟨_, issued_client hissued _, hoffers,
    .asked (requested_client hissued (Nat.lt_trans hfew hsmall) hs .unicast)
      (hissued.not_knows hfew _) rfl⟩

theorem exists_posted (hbefore : ∀ i ∈ before, i.Healthy)
    (hask : (Mesh.Call.client .send fd packet senv).Healthy) (hfew : asks before < 65536) :
    ∃ s : Service, s.Issued id (asks before + 1) ∧
      Offers (Mesh.start pids fds id).server.children
        ((run (Mesh.call z) (Mesh.start pids fds id) before).call z
          (.client .send fd packet senv)) s ∧
      Posted packet.senderAddr packet.receiverAddr (id + UInt16.ofNat (asks before)) s := by
  obtain ⟨s, hissued, hoffers⟩ := exists_asked z pids fds id hbefore hask
  exact ⟨_, issued_client hissued _, hoffers, posted_client hissued hfew⟩

/-- Over any run after the request, what is left of the broadcast and what was delivered of it are
no more than it had to begin with. -/
theorem broadcasting_run (hbefore : ∀ i ∈ before, i.Healthy)
    (hask : (Mesh.Call.client .broadcast fd packet senv).Healthy)
    (hafter : ∀ i ∈ after, i.Healthy) (hfew : asks before + asks after < 65536)
    (hs : InMesh packet.senderAddr) :
    ∃ n, (∃ s, Offers (Mesh.start pids fds id).server.children
      (run (Mesh.call z) (Mesh.start pids fds id)
        (before ++ .client .broadcast fd packet senv :: after)) s ∧
      Broadcasting packet.senderAddr (id + UInt16.ofNat (asks before)) n s) ∧
      countSteps (Mesh.call z) (Mesh.Concerns (id + UInt16.ofNat (asks before)))
        (run (Mesh.call z) (Mesh.start pids fds id)
          (before ++ [.client .broadcast fd packet senv])) after + n ≤
        1 + (neighbours packet.senderAddr).length := by
  obtain ⟨s, hissued, hoffers, hcast⟩ :=
    exists_broadcasting z pids fds id hbefore hask (by omega) hs
  have hsteps := steps_listed (z := z) (N := 65536) hafter ⟨s, hoffers, hissued⟩
    (Nat.lt_succ_self _) (by omega) (Nat.le_refl _)
  rw [run_append, run_append]
  exact (countsDown_call z pids fds id (fun _ _ _ => Offers.exists_concerns)
    (countsDown_broadcasting _ _ _)).countSteps_le hsteps
    ⟨s, hoffers, hcast⟩

theorem contesting_run (hbefore : ∀ i ∈ before, i.Healthy)
    (hask : (Mesh.Call.client .unicast fd packet senv).Healthy)
    (hafter : ∀ i ∈ after, i.Healthy) (hfew : asks before + asks after < maxMessageData)
    (hs : InMesh packet.senderAddr) :
    ∃ n, (∃ s, Offers (Mesh.start pids fds id).server.children
      (run (Mesh.call z) (Mesh.start pids fds id)
        (before ++ .client .unicast fd packet senv :: after)) s ∧
      Contesting packet.senderAddr (id + UInt16.ofNat (asks before)) n s ∧
      s.Room (issued id maxMessageData)) ∧
      countSteps (Mesh.call z) (Mesh.Concerns (id + UInt16.ofNat (asks before)))
        (run (Mesh.call z) (Mesh.start pids fds id)
          (before ++ [.client .unicast fd packet senv])) after + n ≤
        2 + (neighbours packet.senderAddr).length * 2 := by
  have hsmall : maxMessageData ≤ 65536 := by decide
  obtain ⟨s, hissued, hoffers, hcontest⟩ :=
    exists_contesting z pids fds id hbefore hask (by omega) hs
  have hsteps := steps_listed (z := z) hafter ⟨s, hoffers, hissued⟩
    (Nat.lt_succ_self _) (by omega) hsmall
  have hdown := countsDown_contesting (issued id maxMessageData) packet.senderAddr
    (id + UInt16.ofNat (asks before)) length_issued.le
  rw [run_append, run_append]
  exact (countsDown_call z pids fds id (fun _ _ _ => Offers.exists_concerns) hdown).countSteps_le
    hsteps
    ⟨s, hoffers, hcontest, hissued.room (by omega) (Nat.le_refl _)⟩

theorem posted_run (hbefore : ∀ i ∈ before, i.Healthy)
    (hask : (Mesh.Call.client .send fd packet senv).Healthy)
    (hafter : ∀ i ∈ after, i.Healthy) (hfew : asks before + asks after < maxMessageData) :
    ∃ s, Offers (Mesh.start pids fds id).server.children
      (run (Mesh.call z) (Mesh.start pids fds id)
        (before ++ .client .send fd packet senv :: after)) s ∧
      Posted packet.senderAddr packet.receiverAddr (id + UInt16.ofNat (asks before)) s := by
  have hsmall : maxMessageData ≤ 65536 := by decide
  obtain ⟨s, hissued, hoffers, hposted⟩ := exists_posted z pids fds id hbefore hask (by omega)
  have hsteps := steps_listed (z := z) hafter ⟨s, hoffers, hissued⟩
    (Nat.lt_succ_self _) (by omega) hsmall
  rw [run_append]
  obtain ⟨s', hoffers', hposted', -⟩ := hsteps.invariant _
    (fun _ _ hi => kept_call z pids fds id
      (fun _ _ hj => posted_step length_issued.le hj) hi)
    ⟨s, hoffers, hposted, hissued.room (by omega) (Nat.le_refl _)⟩
  exact ⟨s', hoffers', hposted'⟩
end

end MeshNet
