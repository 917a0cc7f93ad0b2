import MeshNet.Library.Run
import MeshNet.Node.Direct

/-!
# How often a node handles a message

The copies of a message reach a node by many ways and in any order, between the packets of
other messages. The table of ids tells the first copy from the later ones as long as it
remembers the id. It forgets all ids but one when it starts again at its first slot; the next
copy is then handled like the first.
-/

namespace MeshNet
open Library

/-- The packets that work on the table of ids. -/
inductive Arrival where
  | direct (p : NodePacket)
  | first (c : UnicastContest)

namespace Arrival

def handle (z : Zlib) (n : Node) (a : Env × Arrival) : Node :=
  match a.2 with
  | direct p => (handleNodeRouteDirect z a.1 n p).2
  | first c => handleUnicastFirst a.1 n c

/-- A valid copy of the message `k`. -/
def IsCopy (k : UInt16) : Arrival → Prop
  | direct p => p.Valid ∧ p.appPayload.id = k
  | first _ => False

instance (k : UInt16) (a : Arrival) : Decidable (a.IsCopy k) := by
  cases a <;> unfold IsCopy <;> infer_instance

/-- The id that an arrival looks up, if it comes to that. -/
def lookedUp : Arrival → Option UInt16
  | direct p => if p.Valid then some p.appPayload.id else none
  | first c => some c.appPayload.id

/-- The arrival makes the table of the node start again. -/
def Wraps (n : Node) (a : Arrival) : Prop := ∃ id ∈ a.lookedUp, n.messages.Wraps id

instance (n : Node) (a : Arrival) : Decidable (a.Wraps n) := by unfold Wraps; infer_instance

/-- The node delivers the arrival, or floods it on, as a copy of the message `k`. -/
def Handles (k : UInt16) (n : Node) (a : Arrival) : Prop := a.IsCopy k ∧ ¬ n.messages.Taken k

instance (k : UInt16) (n : Node) (a : Arrival) : Decidable (a.Handles k n) := by
  unfold Handles; infer_instance

end Arrival

/-! ## What a node knows of a message -/

/-- What has become of a message at a node: no copy has come yet, the table knows that one
was handled, or the table has started again since. -/
inductive Memory where
  | unseen | known | forgotten
  deriving DecidableEq, Repr

def Memory.next (k : UInt16) (n : Node) (a : Arrival) : Memory → Memory
  | unseen => if a.IsCopy k then known else unseen
  | known => if a.Wraps n then forgotten else known
  | forgotten => forgotten

/-- The node and what it has made of the message `k`. -/
def watch (z : Zlib) (k : UInt16) (s : Node × Memory) (a : Env × Arrival) : Node × Memory :=
  (Arrival.handle z s.1 a, s.2.next k s.1 a.2)

/-- No copy of the message comes after it was forgotten. -/
def Remembered (z : Zlib) (k : UInt16) (n : Node) (as : List (Env × Arrival)) : Prop :=
  Steps (watch z k) (fun s a => s.2 = .forgotten → ¬ a.2.IsCopy k) (n, .unseen) as

/-- The number of copies of the message that a node handles. -/
def handledCopies (z : Zlib) (k : UInt16) (n : Node) (as : List (Env × Arrival)) : Nat :=
  countSteps (Arrival.handle z) (fun n a => a.2.Handles k n) n as

/-! ## One arrival -/

variable {z : Zlib} {k : UInt16} {n : Node} {a : Env × Arrival}

/-- An arrival of another message leaves the message as it was known, unless the table starts
again. -/
theorem lookup_handle_of_not_isCopy (ha : ¬ a.2.IsCopy k)
    (hfirst : ∀ c, a.2 = .first c → c.appPayload.id ≠ k) :
    (Arrival.handle z n a).messages.lookup k =
      if a.2.Wraps n then none else n.messages.lookup k := by
  obtain ⟨env, a⟩ := a
  cases a with
  | direct p =>
    by_cases hv : p.Valid
    · have hne : p.appPayload.id ≠ k := fun h => ha ⟨hv, h⟩
      have hwraps : Arrival.Wraps n (.direct p) ↔ n.messages.Wraps p.appPayload.id := by
        simp [Arrival.Wraps, Arrival.lookedUp, hv]
      simp only [hwraps]
      by_cases ht : n.messages.Taken p.appPayload.id
      · have hno : ¬ n.messages.Wraps p.appPayload.id := fun h => ht.ne_none h.2
        rw [if_neg hno]
        simp only [Arrival.handle, handleNodeRouteDirect_of_taken ht]
      · exact (lookup_handleNodeRouteDirect hv ht).2 k hne
    · have hwraps : ¬ Arrival.Wraps n (.direct p) := by simp [Arrival.Wraps, Arrival.lookedUp, hv]
      simp only [hwraps, if_false, Arrival.handle, handleNodeRouteDirect_of_not_valid hv]
  | first c =>
    have hwraps : Arrival.Wraps n (.first c) ↔ n.messages.Wraps c.appPayload.id := by
      simp [Arrival.Wraps, Arrival.lookedUp]
    simp only [hwraps]
    exact lookup_handleUnicastFirst (hfirst c rfl)

/-- A copy is known as handled afterwards, and does not start the table again if it was. -/
theorem taken_handle_of_isCopy (ha : a.2.IsCopy k) :
    (Arrival.handle z n a).messages.Taken k ∧ (n.messages.Taken k → ¬ a.2.Wraps n) := by
  obtain ⟨env, a⟩ := a
  cases a with
  | first c => exact ha.elim
  | direct p =>
    obtain ⟨hv, rfl⟩ := ha
    constructor
    · by_cases ht : n.messages.Taken p.appPayload.id
      · simpa only [Arrival.handle, handleNodeRouteDirect_of_taken ht] using ht
      · exact (lookup_handleNodeRouteDirect hv ht).1
    · rintro ht ⟨id, hid, hwraps⟩
      obtain rfl : p.appPayload.id = id := by simpa [Arrival.lookedUp, hv] using hid
      exact ht.ne_none hwraps.2

/-! ## Whole runs -/

variable {as : List (Env × Arrival)}

theorem handledCopies_cons :
    handledCopies z k n (a :: as) =
      (if a.2.Handles k n then 1 else 0) + handledCopies z k (Arrival.handle z n a) as := rfl

theorem handledCopies_of_forgotten (hfirst : ∀ a ∈ as, ∀ c, a.2 = .first c → c.appPayload.id ≠ k)
    (h : n.messages.lookup k = none) :
    handledCopies z k n as = 0 ↔
      Steps (watch z k) (fun s a => s.2 = .forgotten → ¬ a.2.IsCopy k) (n, .forgotten) as := by
  induction as generalizing n with
  | nil => simp [handledCopies]
  | cons a as ih =>
    have hrest := fun b hb => hfirst b (List.mem_cons_of_mem a hb)
    by_cases ha : a.2.IsCopy k
    · simp [handledCopies_cons, Arrival.Handles, ha, not_taken_of_lookup h]
    · have hnone : (Arrival.handle z n a).messages.lookup k = none := by
        rw [lookup_handle_of_not_isCopy ha (hfirst a List.mem_cons_self), h, ite_self]
      rw [handledCopies_cons, if_neg fun hh => ha hh.1, Nat.zero_add, ih hrest hnone, steps_cons]
      exact ⟨fun hs => ⟨fun _ => ha, hs⟩, And.right⟩

theorem handledCopies_of_known (hfirst : ∀ a ∈ as, ∀ c, a.2 = .first c → c.appPayload.id ≠ k)
    (h : n.messages.Taken k) :
    handledCopies z k n as = 0 ↔
      Steps (watch z k) (fun s a => s.2 = .forgotten → ¬ a.2.IsCopy k) (n, .known) as := by
  induction as generalizing n with
  | nil => simp [handledCopies]
  | cons a as ih =>
    have hrest := fun b hb => hfirst b (List.mem_cons_of_mem a hb)
    rw [handledCopies_cons, if_neg fun hh => hh.2 h, Nat.zero_add, steps_cons]
    simp only [reduceCtorEq, false_implies, true_and]
    by_cases ha : a.2.IsCopy k
    · obtain ⟨htaken, hwraps⟩ := taken_handle_of_isCopy (z := z) (n := n) ha
      rw [ih hrest htaken, watch, Memory.next, if_neg (hwraps h)]
    · have hlookup :=
        lookup_handle_of_not_isCopy (z := z) (n := n) ha (hfirst a List.mem_cons_self)
      by_cases hwraps : a.2.Wraps n
      · rw [if_pos hwraps] at hlookup
        rw [handledCopies_of_forgotten hrest hlookup, watch, Memory.next, if_pos hwraps]
      · rw [if_neg hwraps] at hlookup
        have htaken : (Arrival.handle z n a).messages.Taken k := by
          rw [MessageTable.Taken, hlookup]
          exact h
        rw [ih hrest htaken, watch, Memory.next, if_neg hwraps]

/-- A node that has seen no copy handles at most one exactly when it remembers the message
whenever another copy comes. -/
theorem handledCopies_le_one_iff
    (hfirst : ∀ a ∈ as, ∀ c, a.2 = .first c → c.appPayload.id ≠ k)
    (h : n.messages.lookup k = none) : handledCopies z k n as ≤ 1 ↔ Remembered z k n as := by
  induction as generalizing n with
  | nil => simp [handledCopies, Remembered]
  | cons a as ih =>
    have hrest := fun b hb => hfirst b (List.mem_cons_of_mem a hb)
    rw [Remembered, steps_cons]
    simp only [reduceCtorEq, false_implies, true_and]
    by_cases ha : a.2.IsCopy k
    · have hknown :=
        handledCopies_of_known (z := z) hrest (taken_handle_of_isCopy (z := z) (n := n) ha).1
      rw [watch, Memory.next, if_pos ha, ← hknown, handledCopies_cons,
        if_pos ⟨ha, not_taken_of_lookup h⟩]
      omega
    · have hnone : (Arrival.handle z n a).messages.lookup k = none := by
        rw [lookup_handle_of_not_isCopy ha (hfirst a List.mem_cons_self), h, ite_self]
      rw [handledCopies_cons, if_neg fun hh => ha hh.1, Nat.zero_add, ih hrest hnone, Remembered,
        watch, Memory.next, if_neg ha]

/-! ## What the apps get -/

/-- How often the apps were given a payload of the message. -/
def Link.appCalls (k : UInt16) (l : Link) : Nat :=
  l.trace.countP fun
    | .app given _ _ => given.id == k
    | _ => false

@[simp] theorem appCalls_getConnAndSend (net : Net) (l : Link) (port : UInt16)
    (bytes : List UInt8) : (l.getConnAndSend net port bytes).2.appCalls k = l.appCalls k := by
  rw [Link.appCalls, Link.getConnAndSend_trace, List.countP_append]
  rfl

@[simp] theorem appCalls_sendAll (net : Net) (l : Link) (ports : List UInt16)
    (bytes : List UInt8) : (l.sendAll net ports bytes).appCalls k = l.appCalls k := by
  induction ports generalizing l with
  | nil => rfl
  | cons port ports ih => exact (ih _).trans (appCalls_getConnAndSend ..)

@[simp] theorem appCalls_handToAppAndNotify (env : Env) (l : Link) (b : AppPayload) :
    (handToAppAndNotify z env n l b).2.2.appCalls k =
      l.appCalls k + if b.id = k then 1 else 0 := by
  have hnotify : (handToAppAndNotify z env n l b).2.2.appCalls k =
      (handToApp z env n l b).2.appCalls k := appCalls_getConnAndSend ..
  rw [hnotify, Link.appCalls, handToApp, Link.push_trace, List.countP_append]
  by_cases h : b.id = k <;> simp [h, Link.appCalls]

/-- Only a copy that is handled reaches the apps, and only once. -/
theorem appCalls_handle :
    (Arrival.handle z n a).link.appCalls k ≤
      n.link.appCalls k + if a.2.Handles k n then 1 else 0 := by
  obtain ⟨env, a⟩ := a
  cases a with
  | first c =>
    have : (handleUnicastFirst env n c).link.appCalls k = n.link.appCalls k := by
      unfold handleUnicastFirst
      dsimp only
      split
      · rfl
      · rfl
      · exact appCalls_getConnAndSend ..
    exact Nat.le_trans (Nat.le_of_eq this) (Nat.le_add_right ..)
  | direct p =>
    simp only [Arrival.handle]
    by_cases hv : p.Valid
    · by_cases ht : n.messages.Taken p.appPayload.id
      · rw [handleNodeRouteDirect_of_taken ht]
        exact Nat.le_add_right ..
      · have hhandles : Arrival.Handles k n (.direct p) ↔ p.appPayload.id = k :=
          ⟨fun hh => hh.1.2, by rintro rfl; exact ⟨⟨hv, rfl⟩, ht⟩⟩
        simp only [handleNodeRouteDirect_of_not_taken hv ht, hhandles]
        split
        · by_cases hans : (n.takeIn p).messages.Answered p.appPayload.id
          · rw [routeDirectHandleDelivered_of_answered hv.2 hans]
            exact Nat.le_add_right ..
          · rw [routeDirectHandleDelivered_of_not_answered hv.2 hans]
            dsimp only
            split
            · exact Nat.le_add_right ..
            · split
              · exact Nat.le_trans (Nat.le_of_eq (appCalls_getConnAndSend ..))
                  (Nat.le_add_right ..)
              · rw [appCalls_handToAppAndNotify, sendPacket, appCalls_getConnAndSend]
                exact Nat.le_refl _
        · exact Nat.le_trans (Nat.le_of_eq (appCalls_sendAll ..)) (Nat.le_add_right ..)
    · rw [handleNodeRouteDirect_of_not_valid hv]
      exact Nat.le_add_right ..

theorem appCalls_run :
    (run (Arrival.handle z) n as).link.appCalls k ≤
      n.link.appCalls k + handledCopies z k n as := by
  induction as generalizing n with
  | nil => simp
  | cons a as ih =>
    have hstep := appCalls_handle (z := z) (k := k) (n := n) (a := a)
    have hrest := ih (n := Arrival.handle z n a)
    rw [run_cons, handledCopies_cons]
    omega

/-- The node handles at most one copy of the message, and gives it to its apps at most once. -/
def AtMostOnce (z : Zlib) (k : UInt16) (n : Node) (as : List (Env × Arrival)) : Prop :=
  handledCopies z k n as ≤ 1 ∧
    (run (Arrival.handle z) n as).link.appCalls k ≤ n.link.appCalls k + 1

theorem atMostOnce_start_iff (addr : UInt8)
    (hfirst : ∀ a ∈ as, ∀ c, a.2 = .first c → c.appPayload.id ≠ k) :
    AtMostOnce z k (.start addr) as ↔ Remembered z k (.start addr) as := by
  have hcalls : (run (Arrival.handle z) (.start addr) as).link.appCalls k ≤
      (Node.start addr).link.appCalls k + handledCopies z k (.start addr) as := appCalls_run
  rw [← handledCopies_le_one_iff hfirst MessageTable.lookup_initial]
  exact ⟨And.left, fun h => ⟨h, by omega⟩⟩

/-! ## A message that is forgotten -/

/-- A copy of the message `id` from node 1 to node 2, with an empty text. -/
def flooded (id : UInt16) : NodePacket :=
  NodePacket.renewed ⟨1, 2, 1, 19, ⟨.known .delivery, 0, 0, id, 0, .zero, 0⟩, 0⟩

theorem flooded_valid (id : UInt16) : (flooded id).Valid :=
  ⟨show (0 : Int8) < 19 by decide, isValidCrc_renewed (show 0 ≤ 150 by decide)⟩

def floodedArrivals (ids : List UInt16) : List (Env × Arrival) :=
  ids.map fun id => (.zeroed .ideal, .direct (flooded id))

theorem floodedArrivals_ne_first {ids : List UInt16} :
    ∀ a ∈ floodedArrivals ids, ∀ c, a.2 ≠ .first c := by
  intro a ha c hc
  obtain ⟨id, -, rfl⟩ := List.mem_map.mp ha
  cases hc

/-- How often an id in a list is registered as a new one, by the table alone. -/
def registrations (k : UInt16) : MessageTable → List UInt16 → Nat :=
  countSteps (fun t id => (registerMessage t id).2) fun t id => id = k ∧ ¬ t.Taken id

/-- A node that none of the copies is for handles them as its table says. -/
theorem handledCopies_flooded {ids : List UInt16} (haddr : n.addr ≠ 2) :
    handledCopies z k n (floodedArrivals ids) = registrations k n.messages ids := by
  induction ids generalizing n with
  | nil => rfl
  | cons id ids ih =>
    have hv := flooded_valid id
    have hother : (flooded id).receiverAddr ≠ n.addr := Ne.symm haddr
    have hstep : (Arrival.handle z n (.zeroed .ideal, .direct (flooded id))).messages =
          (registerMessage n.messages id).2 ∧
        (Arrival.handle z n (.zeroed .ideal, .direct (flooded id))).addr = n.addr := by
      rw [registerMessage_eq]
      by_cases ht : n.messages.Taken id
      · simp only [Arrival.handle]
        rw [handleNodeRouteDirect_of_taken ht, if_pos ht]
        exact ⟨rfl, rfl⟩
      · simp only [Arrival.handle]
        rw [handleNodeRouteDirect_of_not_taken hv ht, if_neg hother, if_neg ht]
        exact ⟨rfl, rfl⟩
    have hhandles : Arrival.Handles k n (.direct (flooded id)) ↔ id = k ∧ ¬ n.messages.Taken id :=
      ⟨fun h => ⟨h.1.2, by rw [show id = k from h.1.2]; exact h.2⟩,
        by rintro ⟨rfl, h⟩; exact ⟨⟨hv, rfl⟩, h⟩⟩
    have hrest := ih (n := Arrival.handle z n (.zeroed .ideal, .direct (flooded id)))
      (hstep.2 ▸ haddr)
    rw [floodedArrivals, List.map_cons, handledCopies_cons, registrations, countSteps_cons]
    simp only [hhandles]
    rw [← hstep.1]
    exact congrArg _ hrest

/-- As long as there is room, a new id is put behind the known ones. -/
theorem registerMessage_of_room {t : MessageTable} {id : UInt16} (hnew : t.lookup id = none)
    (hroom : t.messageNum ≠ maxMessageData) :
    (registerMessage t id).2.messageNum = t.messageNum + 1 ∧
      ∀ k, id ≠ k → (registerMessage t id).2.lookup k = t.lookup k := by
  have hregister : t.register id = t.setNewId id := by simp [MessageTable.register, hnew]
  have hknown : (t.setNewId id).lookup id ≠ none := hregister ▸ MessageTable.register_ne_none
  rw [registerMessage_eq, if_neg (not_taken_of_lookup hnew), hregister]
  refine ⟨?_, fun k hk => ?_⟩
  · rw [MessageTable.setWasMessageById, MessageTable.messageNum_setFlag hknown,
      MessageTable.messageNum_setNewId, if_neg hroom]
  · rw [MessageTable.lookup_setWasMessageById hknown, if_neg hk,
      MessageTable.lookup_setNewId hnew, if_neg hroom, if_neg hk]

/-- As long as there is room, what is known stays known while new ids are put into the table. -/
theorem MessageTable.run_of_room {step : MessageTable → UInt16 → MessageTable}
    (hstep : ∀ (t : MessageTable) (id : UInt16), t.lookup id = none →
      t.messageNum ≠ maxMessageData → (step t id).messageNum = t.messageNum + 1 ∧
        ∀ k, id ≠ k → (step t id).lookup k = t.lookup k)
    {t : MessageTable} {ids : List UInt16} (hids : ids.Nodup)
    (hnew : ∀ id ∈ ids, t.lookup id = none)
    (hroom : t.messageNum + ids.length ≤ maxMessageData) :
    (run step t ids).messageNum = t.messageNum + ids.length ∧
      ∀ k, k ∉ ids → (run step t ids).lookup k = t.lookup k := by
  induction ids generalizing t with
  | nil => exact ⟨rfl, fun _ _ => rfl⟩
  | cons id ids ih =>
    obtain ⟨hid, hids⟩ := List.nodup_cons.mp hids
    rw [List.length_cons] at hroom
    obtain ⟨hnum, hother⟩ := hstep t id (hnew id List.mem_cons_self) (by omega)
    have hnew' : ∀ id' ∈ ids, (step t id).lookup id' = none := fun id' hid' =>
      (hother id' fun h => hid (h ▸ hid')).trans (hnew id' (List.mem_cons_of_mem _ hid'))
    obtain ⟨hnum', hother'⟩ := ih hids hnew' (by omega)
    refine ⟨by rw [run_cons, hnum', hnum, List.length_cons]; omega, fun k hk => ?_⟩
    rw [List.mem_cons, not_or] at hk
    rw [run_cons, hother' k hk.2, hother k (Ne.symm hk.1)]

/-- A hundred other messages make the table forget a message, and its next copy is handled
like the first. -/
theorem registrations_forgotten {k id : UInt16} {others : List UInt16}
    (hnodup : (k :: others).Nodup) (hlen : others.length + 1 = maxMessageData)
    (hid : id ∉ k :: others) :
    2 ≤ registrations k .initial ((k :: others) ++ [id, k]) := by
  obtain ⟨hfull, hother⟩ := MessageTable.run_of_room (fun _ _ => registerMessage_of_room)
    (t := .initial) hnodup (fun _ _ => rfl) (by simp; omega)
  have hnew := hother id hid
  have hfirst : 1 ≤ registrations k .initial (k :: others) := by
    rw [registrations, countSteps_cons, if_pos ⟨rfl, not_taken_of_lookup rfl⟩]
    exact Nat.le_add_right ..
  rw [registrations] at hfirst
  rw [registrations, countSteps_append]
  generalize run (fun t id => (registerMessage t id).2) .initial (k :: others) = t at *
  have hne : id ≠ k := fun h => hid (h ▸ List.mem_cons_self)
  have hwraps : t.Wraps id := ⟨by simpa [hlen] using hfull, hnew⟩
  have hforgotten : ¬ (registerMessage t id).2.Taken k := by
    apply not_taken_of_lookup
    rw [registerMessage_eq, if_neg (not_taken_of_lookup hnew),
      MessageTable.lookup_setWasMessageById MessageTable.register_ne_none, if_neg hne,
      MessageTable.lookup_register_ne hne, if_pos hwraps]
  have hlast : 1 ≤ registrations k t [id, k] := by
    rw [registrations, countSteps_cons, countSteps_cons, if_neg fun h => hne h.1,
      if_pos ⟨rfl, hforgotten⟩]
    omega
  exact Nat.add_le_add hfirst hlast

theorem atMostOnce_forgotten :
    ¬ ∀ (z : Zlib) (addr : UInt8) (k : UInt16) (as : List (Env × Arrival)),
      (∀ a ∈ as, ∀ c, a.2 = .first c → c.appPayload.id ≠ k) → AtMostOnce z k (.start addr) as := by
  intro h
  obtain ⟨others, hnodup, hlen, hid⟩ : ∃ others : List UInt16,
      (0 :: others).Nodup ∧ others.length + 1 = maxMessageData ∧ 100 ∉ 0 :: others :=
    ⟨(List.range 99).map fun i => UInt16.ofNat (i + 1), by decide +kernel⟩
  have htwo := registrations_forgotten hnodup hlen hid
  have hle := (h .stored 5 0 (floodedArrivals ((0 :: others) ++ [100, 0]))
    fun a ha c hc => absurd hc (floodedArrivals_ne_first a ha c)).1
  rw [handledCopies_flooded (by decide)] at hle
  exact absurd (Nat.le_trans htwo hle) (by decide)

theorem atMostOnce_start_iff_flooded :
    AtMostOnce .stored 7 (.start 5) (floodedArrivals [7, 8, 7]) ↔
      Remembered .stored 7 (.start 5) (floodedArrivals [7, 8, 7]) :=
  atMostOnce_start_iff 5 fun a ha c hc => absurd hc (floodedArrivals_ne_first a ha c)

end MeshNet
