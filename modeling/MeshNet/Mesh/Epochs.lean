import MeshNet.Mesh.Settled
import MeshNet.Node.Flags

/-!
# Ids after a reset

A reset starts the numbering of the messages again, and every node clears its table when it gets to
its own reset. A node takes no message for one from before the reset, as long as it handles each
packet between its resets that begin and end the numbering of the packet's message.
-/

namespace MeshNet
open Library Network

instance (i : Env × List UInt8) : Decidable (IsReset i) :=
  decidable_of_iff (∃ incoming ∈ receive i.1.heap i.1.stack i.2,
      incoming.sender = .known .server ∧ incoming.parsed.req = .known .reset)
    ⟨fun ⟨incoming, h⟩ => ⟨incoming, h⟩, fun ⟨incoming, h⟩ => ⟨incoming, h⟩⟩

/-- The mesh, the reset since which the table of each node has been filled, and for each flag in
each slot of the tables the reset since which the message is numbered that raised it. -/
structure Epochs where
  network : Network
  epoch : UInt8 → Nat
  mark : UInt8 → Flag → Nat → Nat

namespace Epochs

def start (pids : List Int32) : Epochs := ⟨.start pids, fun _ => 0, fun _ _ _ => 0⟩

/-- A process that is started anew begins with an empty table. -/
def epochAfter (s : Epochs) (h : Happening) : UInt8 → Nat :=
  match h with
  | .restart addr => Function.update s.epoch addr s.network.era
  | _ =>
    match s.network.handled? h with
    | some (addr, env, f) =>
      if IsReset (env, f.bytes) then Function.update s.epoch addr f.era else s.epoch
    | none => s.epoch

def markAfter (z : Zlib) (s : Epochs) (h : Happening) : UInt8 → Flag → Nat → Nat :=
  match s.network.handled? h with
  | some (addr, env, f) =>
    match arrival? (env, f.bytes) with
    | some a => fun b fl i =>
      if b = addr ∧ fl ∈ a.raises (s.network.node addr) ∧
          (nodeStep z (s.network.node addr) (env, f.bytes)).messages.holds i a.id = true then
        f.era
      else s.mark b fl i
    | none => s.mark
  | none => s.mark

def step (z : Zlib) (s : Epochs) (h : Happening) : Epochs :=
  ⟨s.network.step z h, s.epochAfter h, s.markAfter z h⟩

/-- A packet that works on the table of a node comes between the resets of the node that begin and
end the numbering of its message. -/
def InTime (s : Epochs) (h : Happening) : Prop :=
  ∀ x ∈ s.network.handled? h, ∀ a ∈ arrival? (x.2.1, x.2.2.bytes),
    a.lookedUp ≠ none → x.2.2.era = s.epoch x.1

instance (s : Epochs) (h : Happening) : Decidable (s.InTime h) := by
  unfold InTime
  infer_instance

/-- A packet is taken for a duplicate because of a flag that was raised by a message from before
the reset since which its own message is numbered. -/
def Mistakes (s : Epochs) (h : Happening) : Prop :=
  ∃ x ∈ s.network.handled? h, ∃ a ∈ arrival? (x.2.1, x.2.2.bytes),
    ∃ c ∈ a.consults (s.network.node x.1), ∃ i ∈ c.2.slot a.id,
      c.2.raised c.1 i = true ∧ s.mark x.1 c.1 i < x.2.2.era

instance (s : Epochs) (h : Happening) : Decidable (s.Mistakes h) := by
  unfold Mistakes
  infer_instance

/-- All flags of a node were raised since its last reset. -/
def Sound (s : Epochs) : Prop :=
  ∀ b fl i, (s.network.node b).messages.raised fl i = true → s.mark b fl i = s.epoch b

variable {z : Zlib} {s : Epochs} {h : Happening} {n : Node} {a : Arrival}

theorem sound_start (pids : List Int32) : (start pids).Sound := by
  intro b fl i hraised
  have hlow : MessageTable.initial.raised fl i = false := raised_initial
  exact absurd hraised (by simp [start, Network.start, Node.start, hlow])

/-! ## One packet -/

theorem lookedUp_of_consults (h : a.consults n ≠ []) : a.lookedUp ≠ none := by
  cases a with
  | direct p =>
    by_cases hv : p.Valid
    · simp [Arrival.lookedUp, hv]
    · simp [Arrival.consults, hv] at h
  | first c => exact Option.some_ne_none _

theorem lookedUp_of_raises (h : a.raises n ≠ []) : a.lookedUp ≠ none := by
  cases a with
  | direct p =>
    by_cases hv : p.Valid
    · simp [Arrival.lookedUp, hv]
    · simp [Arrival.raises, hv] at h
  | first c => exact Option.some_ne_none _

/-- The flags that a packet finds raised were raised before it. -/
theorem raised_of_consults {fl : Flag} {t : MessageTable} {i : Nat} (h : (fl, t) ∈ a.consults n)
    (hraised : t.raised fl i = true) : n.messages.raised fl i = true := by
  cases a with
  | direct p =>
    simp only [Arrival.consults] at h
    split at h
    · obtain heq | hlater := List.mem_cons.mp h
      · cases heq
        exact hraised
      · split at hlater
        · cases List.mem_singleton.mp hlater
          exact (raised_takeIn hraised).resolve_right fun hnew => by cases hnew.1
        · cases hlater
    · cases h
  | first c =>
    cases List.mem_singleton.mp h
    exact hraised

theorem not_mistakes (hs : s.Sound) (hin : s.InTime h) : ¬ s.Mistakes h := by
  rintro ⟨⟨addr, env, f⟩, hhandled, a, ha, ⟨fl, t⟩, hconsults, i, -, hraised, hlt⟩
  have hera := hin (addr, env, f) hhandled a ha
    (lookedUp_of_consults (List.ne_nil_of_mem hconsults))
  have hmark := hs addr fl i (raised_of_consults hconsults hraised)
  dsimp only at hlt hera
  omega

/-! ## Whole runs -/

/-- The table that a reset leaves has no flag raised. -/
theorem raised_of_isReset {env : Env} {bytes : List UInt8} (hreset : IsReset (env, bytes))
    {fl : Flag} {i : Nat} : (nodeStep z n (env, bytes)).messages.raised fl i = false := by
  obtain ⟨⟨sender, req, payload, died⟩, hreceive, rfl, rfl⟩ := hreset
  have hstep : nodeStep z n (env, bytes) = handleReset n := by
    simp only [nodeStep, nodeHandleRequest, hreceive]
    rfl
  rw [hstep]
  exact raised_fillMessagesDefault

theorem sound_step_handled {addr : UInt8} {env : Env} {f : Post}
    (hhandled : s.network.handled? h = some (addr, env, f)) (hin : s.InTime h) (hs : s.Sound) :
    (s.step z h).Sound := by
  obtain ⟨hnode, hrestart⟩ := Network.node_step_of_handled z hhandled
  have hepoch : s.epochAfter h = if IsReset (env, f.bytes) then
      Function.update s.epoch addr f.era else s.epoch := by
    unfold epochAfter
    split
    · exact absurd rfl (hrestart _)
    · rw [hhandled]
  intro b fl i hraised
  change ((s.network.step z h).node b).messages.raised fl i = true at hraised
  change s.markAfter z h b fl i = s.epochAfter h b
  rw [hnode] at hraised
  by_cases hb : b = addr
  · subst hb
    rw [Function.update_self] at hraised
    by_cases hreset : IsReset (env, f.bytes)
    · rw [raised_of_isReset hreset] at hraised
      cases hraised
    · rw [hepoch, if_neg hreset]
      unfold markAfter
      simp only [hhandled]
      rw [messages_nodeStep hreset] at hraised
      cases ha : arrival? (env, f.bytes) with
      | none =>
        rw [ha] at hraised
        exact hs b fl i hraised
      | some a =>
        rw [ha] at hraised
        dsimp only at hraised ⊢
        have hsame : (nodeStep z (s.network.node b) (env, f.bytes)).messages =
            (Arrival.handle z (s.network.node b) (env, a)).messages := by
          rw [messages_nodeStep hreset, ha]
        rw [hsame]
        split
        · rename_i hnew
          exact hin (b, env, f) hhandled a ha (lookedUp_of_raises (List.ne_nil_of_mem hnew.2.1))
        · rename_i hnot
          refine hs b fl i ((raised_handle hraised).resolve_right fun hnew => hnot ?_)
          exact ⟨rfl, hnew.1, hnew.2⟩
  · rw [Function.update_of_ne hb] at hraised
    have hmark : s.markAfter z h b fl i = s.mark b fl i := by
      unfold markAfter
      simp only [hhandled]
      cases arrival? (env, f.bytes) with
      | none => rfl
      | some a => exact if_neg fun hnew => hb hnew.1
    have hsame : s.epochAfter h b = s.epoch b := by
      rw [hepoch]
      split
      · exact Function.update_of_ne hb ..
      · rfl
    rw [hmark, hsame]
    exact hs b fl i hraised

theorem sound_step (hin : s.InTime h) (hs : s.Sound) : (s.step z h).Sound := by
  cases hhandled : s.network.handled? h with
  | some handled => exact sound_step_handled hhandled hin hs
  | none =>
    have hmark : s.markAfter z h = s.mark := by
      unfold markAfter
      rw [hhandled]
    intro b fl i hraised
    change ((s.network.step z h).node b).messages.raised fl i = true at hraised
    change s.markAfter z h b fl i = s.epochAfter h b
    rw [hmark]
    by_cases hrestart : ∃ addr, h = .restart addr
    · obtain ⟨addr, rfl⟩ := hrestart
      change (Function.update s.network.node addr (.start addr) b).messages.raised fl i = true
        at hraised
      change s.mark b fl i = Function.update s.epoch addr s.network.era b
      by_cases hb : b = addr
      · subst hb
        rw [Function.update_self] at hraised
        rw [show (Node.start b).messages = .initial from rfl, raised_initial] at hraised
        cases hraised
      · rw [Function.update_of_ne hb] at hraised ⊢
        exact hs b fl i hraised
    · rw [Network.node_step z hhandled (not_exists.mp hrestart)] at hraised
      have hepoch : s.epochAfter h = s.epoch := by
        unfold epochAfter
        split
        · exact absurd ⟨_, rfl⟩ hrestart
        · rw [hhandled]
      rw [hepoch]
      exact hs b fl i hraised

/-- As long as every packet comes between the resets that begin and end the numbering of its
message, none is taken for a duplicate of a message from before its reset. -/
theorem fresh_run (z : Zlib) (pids : List Int32) (hs : List Happening)
    (h : Steps (step z) InTime (start pids) hs) :
    Steps (step z) (fun s h => ¬ s.Mistakes h) (start pids) hs :=
  (h.with_invariant Sound (fun _ _ => sound_step) (sound_start pids)).imp
    fun _ _ hboth => not_mistakes hboth.1 hboth.2

/-! ### A reset that comes late -/

/-- A client has node 0 send a message to node 99. -/
def askFar : Happening :=
  .request ⟨5, .quiet, (createPacket .send .client
    ⟨0, 99, 0, 0, ⟨.known .delivery, 0, 0, 0, 0, .zero, 0⟩, 0⟩).sent fun _ => 0⟩

/-- Node 1 has a copy of the first message when a client asks for a reset. -/
def beforeReset : List Happening :=
  [reportAs 0 7 8, reportAs 1 7 9, askFar, .next .server (.node 0), .next (.node 0) (.node 1),
    .request ⟨6, .quiet, createBase 3 .reset .client⟩]

theorem fresh_run_inTime :
    Steps (step .stored) (fun s h => ¬ s.Mistakes h) (start forked)
      (beforeReset ++ [.next .server (.node 1), askFar, .next .server (.node 0),
        .next .server (.node 0), .next (.node 0) (.node 1)]) :=
  fresh_run .stored forked _ (by decide +kernel)

/-- Node 1 gets a copy of the new message before its reset. -/
def lateReset : List Happening :=
  beforeReset ++ [askFar, .next .server (.node 0), .next .server (.node 0),
    .next (.node 0) (.node 1)]

theorem fresh_lateReset :
    ¬ ∀ (z : Zlib) (pids : List Int32) (hs : List Happening), (∀ h ∈ hs, h.InOrder) →
      Steps (step z) (fun s h => ¬ s.Mistakes h) (start pids) hs := by
  intro hclaim
  have hinOrder : ∀ h ∈ lateReset, h.InOrder := by
    simp [lateReset, beforeReset, reportAs, askFar, Happening.next, Happening.InOrder]
  have hsteps := hclaim .stored forked lateReset hinOrder
  revert hsteps
  decide +kernel

end Epochs

end MeshNet
