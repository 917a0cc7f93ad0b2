import Mathlib.Data.List.Nodup
import Mathlib.Logic.Function.Basic
import MeshNet.Library.Run

/-!
# The poll loop

The server and the nodes wait for their descriptors with the same loop. It walks over an array to
whose end it appends the connections it accepts, and whose last entry it moves to the place of one
that it closes. The memory behind the array is part of the state: an entry that is appended keeps
whatever `revents` its slot holds.
-/

namespace MeshNet
open Library

/-- `struct pollfd`. -/
structure PollFd where
  fd : Int
  events : UInt16
  revents : UInt16
  deriving DecidableEq

/-- `POLLIN`. -/
def pollin : UInt16 := 1

/-- What the loop tests: whether `POLLIN` is among the events. -/
def readable (revents : UInt16) : Bool := revents &&& pollin ≠ 0

/-- `struct serving_data`. The array is the memory behind it: only the entries below `pfdCount` are
in use, and those below `pfdCapacity` are allocated. -/
structure ServingData where
  serverFd : Int
  pfds : Nat → PollFd
  pfdCount : Nat
  pfdCapacity : Nat

/-- What happens in a round: what `poll` reports for every entry, and, by the place in the array
where the loop stands, what `accept` returns and whether `handle_request` succeeds. A call to
`realloc` may leave anything in the memory that is new. -/
structure Round where
  revents : Nat → UInt16
  accept : Nat → Int
  handle : Nat → Int → Bool
  fresh : Nat → PollFd

/-- What the loop does with descriptors. -/
inductive PollEvent where
  | accept (fd : Int)
  | handle (fd : Int)
  | close (fd : Int)
  deriving DecidableEq

def PollEvent.handled? : PollEvent → Option Int
  | .handle fd => some fd
  | _ => none

namespace ServingData

/-- `serving_init`; `malloc` may leave anything in the memory. -/
def init (serverFd : Int) (memory : Nat → PollFd) : ServingData where
  serverFd := serverFd
  pfds := Function.update memory 0 { memory 0 with fd := serverFd, events := pollin }
  pfdCount := 1
  pfdCapacity := 5

/-- The entries once `poll` has returned. Where it returns -1 the process exits. -/
def poll (w : ServingData) (r : Round) : ServingData :=
  { w with
    pfds := fun i => if i < w.pfdCount then { w.pfds i with revents := r.revents i } else w.pfds i }

/-- Twice the capacity. -/
def grow (w : ServingData) (fresh : Nat → PollFd) : ServingData :=
  { w with
    pfds := fun i => if i < w.pfdCapacity then w.pfds i else fresh i
    pfdCapacity := w.pfdCapacity * 2 }

def addToPfds (w : ServingData) (fresh : Nat → PollFd) (newfd : Int) : ServingData :=
  let w := if w.pfdCount = w.pfdCapacity then w.grow fresh else w
  { w with
    pfds := Function.update w.pfds w.pfdCount
      { w.pfds w.pfdCount with fd := newfd, events := pollin }
    pfdCount := w.pfdCount + 1 }

def delFromPfds (w : ServingData) (i : Nat) : ServingData :=
  { w with
    pfds := Function.update w.pfds i (w.pfds (w.pfdCount - 1))
    pfdCount := w.pfdCount - 1 }

/-- The body of the loop, at place `i`. -/
def turn (r : Round) (i : Nat) (t : ServingData × List PollEvent) :
    ServingData × List PollEvent :=
  let fd := (t.1.pfds i).fd
  if readable (t.1.pfds i).revents then
    if fd = t.1.serverFd then
      if r.accept i = -1 then t
      else (t.1.addToPfds r.fresh (r.accept i), t.2 ++ [.accept (r.accept i)])
    else if r.handle i fd then (t.1, t.2 ++ [.handle fd])
    else (t.1.delFromPfds i, t.2 ++ [.handle fd, .close fd])
  else t

/-- The loop from place `i` on, whose bound is the count of the moment. -/
def loop (r : Round) : (fuel i : Nat) → ServingData × List PollEvent →
    ServingData × List PollEvent
  | 0, _, t => t
  | fuel + 1, i, t => if i < t.1.pfdCount then loop r fuel (i + 1) (turn r i t) else t

/-- `serving_poll`, and what it does with descriptors. -/
def servingPoll (w : ServingData) (r : Round) : ServingData × List PollEvent :=
  loop r (w.pfdCount + 1) 0 (w.poll r, [])

def step (w : ServingData) (r : Round) : ServingData := (w.servingPoll r).1

/-- The descriptors on which `handle_request` is called, in order. -/
def handledIn (w : ServingData) (r : Round) : List Int :=
  (w.servingPoll r).2.filterMap PollEvent.handled?

/-- `accept` returns no descriptor that is open. -/
def Possible (w : ServingData) (r : Round) : Prop :=
  ∀ i, r.accept i ≠ -1 → ∀ j < w.pfdCount, (w.pfds j).fd ≠ r.accept i

/-- `handle_request` is called only on descriptors that this call of `poll` has reported, and no
more than once on each. -/
def OnlyReady (w : ServingData) (r : Round) : Prop :=
  (∀ fd ∈ w.handledIn r, ∃ i < w.pfdCount, (w.pfds i).fd = fd ∧ readable (r.revents i)) ∧
    (w.handledIn r).Nodup

/-- The slot into which `add_to_pfds` writes. -/
def nextSlot (w : ServingData) (r : Round) : PollFd :=
  if w.pfdCount = w.pfdCapacity then r.fresh w.pfdCount else w.pfds w.pfdCount

/-- A connection is accepted, the memory of its entry happens to hold `POLLIN`, and no connection
that was reported is closed in this round. -/
def Stale (w : ServingData) (r : Round) : Prop :=
  readable (r.revents 0) ∧ r.accept 0 ≠ -1 ∧ readable (w.nextSlot r).revents ∧
    ∀ i < w.pfdCount, 0 < i → readable (r.revents i) → r.handle i (w.pfds i).fd

/-- The listening socket comes first, no descriptor occurs twice, and the array fits into its
memory. -/
structure Sound (w : ServingData) : Prop where
  head : (w.pfds 0).fd = w.serverFd
  pos : 0 < w.pfdCount
  fits : w.pfdCount ≤ w.pfdCapacity
  distinct : ∀ i j, i < w.pfdCount → j < w.pfdCount → (w.pfds i).fd = (w.pfds j).fd → i = j

variable {w : ServingData} {r : Round} {t : ServingData × List PollEvent} {es : List PollEvent}
  {fuel i j : Nat}

@[simp] theorem loop_zero : loop r 0 i t = t := rfl

theorem loop_succ :
    loop r (fuel + 1) i t = if i < t.1.pfdCount then loop r fuel (i + 1) (turn r i t) else t := rfl

theorem loop_done (h : ¬ i < t.1.pfdCount) : loop r fuel i t = t := by
  cases fuel with
  | zero => rfl
  | succ fuel => rw [loop_succ, if_neg h]

@[simp] theorem poll_pfdCount : (w.poll r).pfdCount = w.pfdCount := rfl

@[simp] theorem poll_serverFd : (w.poll r).serverFd = w.serverFd := rfl

@[simp] theorem poll_pfdCapacity : (w.poll r).pfdCapacity = w.pfdCapacity := rfl

@[simp] theorem poll_pfds_fd : ((w.poll r).pfds i).fd = (w.pfds i).fd := by
  unfold poll
  dsimp only
  split_ifs <;> rfl

theorem poll_pfds_revents (h : i < w.pfdCount) : ((w.poll r).pfds i).revents = r.revents i := by
  simp [poll, h]

@[simp] theorem delFromPfds_pfdCount : (w.delFromPfds i).pfdCount = w.pfdCount - 1 := rfl

@[simp] theorem delFromPfds_serverFd : (w.delFromPfds i).serverFd = w.serverFd := rfl

@[simp] theorem delFromPfds_pfdCapacity : (w.delFromPfds i).pfdCapacity = w.pfdCapacity := rfl

theorem delFromPfds_pfds (h : j ≠ i) : (w.delFromPfds i).pfds j = w.pfds j :=
  Function.update_of_ne h _ _

section Added

variable {fresh : Nat → PollFd} {newfd : Int}

@[simp] theorem addToPfds_pfdCount : (w.addToPfds fresh newfd).pfdCount = w.pfdCount + 1 := by
  unfold addToPfds
  dsimp only
  split_ifs <;> rfl

@[simp] theorem addToPfds_serverFd : (w.addToPfds fresh newfd).serverFd = w.serverFd := by
  unfold addToPfds
  dsimp only
  split_ifs <;> rfl

/-- The entries that are in use stay as they are, wherever they are moved to. -/
theorem addToPfds_pfds (hfits : w.pfdCount ≤ w.pfdCapacity) (h : i < w.pfdCount) :
    (w.addToPfds fresh newfd).pfds i = w.pfds i := by
  have hne : i ≠ w.pfdCount := by omega
  unfold addToPfds
  split_ifs with hfull
  · have hlt := Nat.lt_of_lt_of_le h hfits
    simp [grow, hne, hlt]
  · simp [hne]

theorem addToPfds_last : ((w.addToPfds fresh newfd).pfds w.pfdCount).fd = newfd := by
  unfold addToPfds
  split_ifs <;> simp [grow]

theorem addToPfds_last_revents {r : Round} :
    (((w.poll r).addToPfds r.fresh newfd).pfds w.pfdCount).revents = (w.nextSlot r).revents := by
  by_cases hfull : w.pfdCount = w.pfdCapacity
  · simp [addToPfds, nextSlot, grow, poll, hfull]
  · simp [addToPfds, nextSlot, poll, hfull]

theorem addToPfds_fits (hfits : w.pfdCount ≤ w.pfdCapacity) (hpos : 0 < w.pfdCount) :
    (w.addToPfds fresh newfd).pfdCount ≤ (w.addToPfds fresh newfd).pfdCapacity := by
  unfold addToPfds
  dsimp only
  split_ifs with hfull
  · dsimp only [grow]
    omega
  · exact Nat.lt_of_le_of_ne hfits hfull

end Added

/-! ## What a round keeps -/

theorem sound_init (serverFd : Int) (memory : Nat → PollFd) : (init serverFd memory).Sound where
  head := by simp [init]
  pos := Nat.one_pos
  fits := (by decide : 1 ≤ 5)
  distinct i j hi hj _ := by
    have hi : i < 1 := hi
    have hj : j < 1 := hj
    omega

theorem Sound.poll (h : w.Sound) (r : Round) : (w.poll r).Sound where
  head := poll_pfds_fd.trans h.head
  pos := h.pos
  fits := h.fits
  distinct i j hi hj hsame := by
    rw [poll_pfds_fd, poll_pfds_fd] at hsame
    exact h.distinct i j hi hj hsame

theorem Sound.fd_ne (h : w.Sound) (hi : i < w.pfdCount) (hpos : 0 < i) :
    (w.pfds i).fd ≠ w.serverFd := by
  intro hsame
  have := h.distinct i 0 hi h.pos (hsame.trans h.head.symm)
  omega

theorem Sound.addToPfds (h : w.Sound) {newfd : Int} (fresh : Nat → PollFd)
    (hnew : ∀ j < w.pfdCount, (w.pfds j).fd ≠ newfd) : (w.addToPfds fresh newfd).Sound where
  head := by rw [addToPfds_pfds h.fits h.pos, addToPfds_serverFd, h.head]
  pos := by simp
  fits := addToPfds_fits h.fits h.pos
  distinct i j hi hj hsame := by
    rw [addToPfds_pfdCount] at hi hj
    obtain hi | rfl : i < w.pfdCount ∨ i = w.pfdCount := by omega
    · rw [addToPfds_pfds h.fits hi] at hsame
      obtain hj | rfl : j < w.pfdCount ∨ j = w.pfdCount := by omega
      · rw [addToPfds_pfds h.fits hj] at hsame
        exact h.distinct i j hi hj hsame
      · exact absurd (hsame.trans addToPfds_last) (hnew i hi)
    · obtain hj | rfl : j < w.pfdCount ∨ j = w.pfdCount := by omega
      · rw [addToPfds_pfds h.fits hj, addToPfds_last] at hsame
        exact absurd hsame.symm (hnew j hj)
      · rfl

/-- The entry at place `j` once the one at place `i` is deleted. -/
theorem delFromPfds_source (hi : i < w.pfdCount) (hj : j < w.pfdCount - 1) :
    ∃ k < w.pfdCount, (w.delFromPfds i).pfds j = w.pfds k ∧
      (j = i ∧ k = w.pfdCount - 1 ∨ j ≠ i ∧ k = j) := by
  by_cases hne : j = i
  · exact ⟨w.pfdCount - 1, by omega, by simp [delFromPfds, hne], .inl ⟨hne, rfl⟩⟩
  · exact ⟨j, by omega, delFromPfds_pfds hne, .inr ⟨hne, rfl⟩⟩

theorem Sound.delFromPfds (h : w.Sound) (hi : i < w.pfdCount) (hpos : 0 < i) :
    (w.delFromPfds i).Sound where
  head := by rw [delFromPfds_pfds (by omega), delFromPfds_serverFd, h.head]
  pos := by
    rw [delFromPfds_pfdCount]
    omega
  fits := by
    have := h.fits
    rw [delFromPfds_pfdCount, delFromPfds_pfdCapacity]
    omega
  distinct j k hj hk hsame := by
    rw [delFromPfds_pfdCount] at hj hk
    obtain ⟨j', hj', hj'eq, hjcase⟩ := delFromPfds_source hi hj
    obtain ⟨k', hk', hk'eq, hkcase⟩ := delFromPfds_source hi hk
    rw [hj'eq, hk'eq] at hsame
    have := h.distinct j' k' hj' hk' hsame
    omega

/-- What the loop does at a place behind the first. -/
theorem turn_cases (r : Round) (es : List PollEvent) (h : w.Sound) (hi : i < w.pfdCount)
    (hpos : 0 < i) :
    (readable (w.pfds i).revents = false ∧ turn r i (w, es) = (w, es)) ∨
    (readable (w.pfds i).revents = true ∧ r.handle i (w.pfds i).fd = true ∧
      turn r i (w, es) = (w, es ++ [.handle (w.pfds i).fd])) ∨
    (readable (w.pfds i).revents = true ∧ r.handle i (w.pfds i).fd = false ∧
      turn r i (w, es) =
        (w.delFromPfds i, es ++ [.handle (w.pfds i).fd, .close (w.pfds i).fd])) := by
  unfold turn
  have hne := h.fd_ne hi hpos
  cases hready : readable (w.pfds i).revents with
  | false => simp
  | true =>
    cases hkept : r.handle i (w.pfds i).fd with
    | false => simp [hne, hkept]
    | true => simp [hne, hkept]

theorem Sound.turn (h : w.Sound) (hi : i < w.pfdCount) (hpos : 0 < i) :
    (turn r i (w, es)).1.Sound := by
  obtain ⟨-, heq⟩ | ⟨-, -, heq⟩ | ⟨-, -, heq⟩ := turn_cases r es h hi hpos
  · rw [heq]
    exact h
  · rw [heq]
    exact h
  · rw [heq]
    exact h.delFromPfds hi hpos

theorem Sound.loop (h : t.1.Sound) (hpos : 0 < i) : (loop r fuel i t).1.Sound := by
  induction fuel generalizing i t with
  | zero => exact h
  | succ fuel ih =>
    rw [loop_succ]
    split_ifs with hi
    · exact ih (h.turn hi hpos) (Nat.succ_pos i)
    · exact h

/-- At the first place a connection is accepted or nothing happens. -/
theorem turn_zero_cases (r : Round) (h : t.1.Sound) :
    (¬ (readable (t.1.pfds 0).revents ∧ r.accept 0 ≠ -1) ∧ turn r 0 t = t) ∨
    ((readable (t.1.pfds 0).revents ∧ r.accept 0 ≠ -1) ∧
      turn r 0 t = (t.1.addToPfds r.fresh (r.accept 0), t.2 ++ [.accept (r.accept 0)])) := by
  unfold turn
  have hhead := h.head
  by_cases hready : readable (t.1.pfds 0).revents = true <;> by_cases hfd : r.accept 0 = -1 <;>
    simp [hready, hfd, hhead]

/-- The loop goes on from the second place once the first is done with. -/
theorem servingPoll_eq (h : w.Sound) :
    w.servingPoll r = loop r w.pfdCount 1 (turn r 0 (w.poll r, [])) := by
  unfold servingPoll
  rw [loop_succ, if_pos (h.poll r).pos]

theorem Sound.turn_zero (h : w.Sound) (hnew : w.Possible r) :
    (ServingData.turn r 0 (w.poll r, [])).1.Sound := by
  obtain ⟨-, heq⟩ | ⟨⟨-, hfd⟩, heq⟩ := turn_zero_cases r (t := (w.poll r, [])) (h.poll r)
  · rw [heq]
    exact h.poll r
  · rw [heq]
    refine (h.poll r).addToPfds r.fresh fun j hj => ?_
    rw [poll_pfds_fd]
    exact hnew 0 hfd j hj

theorem Sound.step (h : w.Sound) (hnew : w.Possible r) : (w.step r).Sound := by
  unfold ServingData.step
  rw [servingPoll_eq h]
  exact (h.turn_zero hnew).loop Nat.one_pos

theorem turn_pfdCount_le (r : Round) (es : List PollEvent) (h : w.Sound) (hi : i < w.pfdCount)
    (hpos : 0 < i) :
    (turn r i (w, es)).1.pfdCount ≤ w.pfdCount := by
  obtain ⟨-, heq⟩ | ⟨-, -, heq⟩ | ⟨-, -, heq⟩ := turn_cases r es h hi hpos
  · exact Nat.le_of_eq (by rw [heq])
  · exact Nat.le_of_eq (by rw [heq])
  · rw [heq]
    exact Nat.sub_le w.pfdCount 1

theorem turn_zero_pfdCount_le (r : Round) (h : w.Sound) :
    (ServingData.turn r 0 (w.poll r, [])).1.pfdCount ≤ w.pfdCount + 1 := by
  obtain ⟨-, heq⟩ | ⟨-, heq⟩ := turn_zero_cases r (t := (w.poll r, [])) (h.poll r)
  · rw [heq]
    exact Nat.le_succ w.pfdCount
  · rw [heq, addToPfds_pfdCount]
    exact Nat.le_refl (w.pfdCount + 1)

theorem loop_add (h : w.Sound) (hpos : 0 < i) (hfuel : w.pfdCount ≤ i + fuel) (n : Nat) :
    loop r (fuel + n) i (w, es) = loop r fuel i (w, es) := by
  induction fuel generalizing i w es with
  | zero => exact loop_done (by dsimp only; omega)
  | succ fuel ih =>
    rw [Nat.add_right_comm, loop_succ, loop_succ]
    dsimp only
    split_ifs with hi
    · have hle := turn_pfdCount_le r es h hi hpos
      exact ih (h.turn hi hpos) (Nat.succ_pos i) (Nat.le_trans hle (by omega))
    · rfl

/-- The loop comes to its end: a bound on the number of places it visits makes no difference. -/
theorem servingPoll_fuel (h : w.Sound) (hnew : w.Possible r) (n : Nat) :
    loop r (w.pfdCount + 1 + n) 0 (w.poll r, []) = w.servingPoll r := by
  have hle := turn_zero_pfdCount_le r h
  rw [servingPoll_eq h, Nat.add_right_comm, loop_succ, if_pos (h.poll r).pos]
  exact loop_add (h.turn_zero hnew) Nat.one_pos (by omega) n

/-! ## Which requests are handled -/

/-- The descriptors of the readable entries among those at the places from `i` on. -/
def readableFrom (w : ServingData) (i n : Nat) : List Int :=
  ((List.range' i n).filter fun j => readable (w.pfds j).revents).map fun j => (w.pfds j).fd

theorem readableFrom_zero : w.readableFrom i 0 = [] := rfl

theorem readableFrom_succ (n : Nat) :
    w.readableFrom i (n + 1) =
      (if readable (w.pfds i).revents then [(w.pfds i).fd] else []) ++
        w.readableFrom (i + 1) n := by
  unfold readableFrom
  rw [List.range'_succ, List.filter_cons]
  split_ifs <;> simp

theorem readableFrom_congr {w' : ServingData} (n : Nat) (h : ∀ j ≥ i, w'.pfds j = w.pfds j) :
    w'.readableFrom i n = w.readableFrom i n := by
  induction n generalizing i with
  | zero => rfl
  | succ n ih =>
    rw [readableFrom_succ, readableFrom_succ, h i (Nat.le_refl i), ih fun j hj => h j (by omega)]

/-- Every connection that is readable at a place before the last one is kept. -/
def KeptFrom (r : Round) (w : ServingData) (i : Nat) : Prop :=
  ∀ j, i ≤ j → j + 1 < w.pfdCount → readable (w.pfds j).revents → r.handle j (w.pfds j).fd

theorem keptFrom_succ :
    KeptFrom r w i ↔
      (i + 1 < w.pfdCount → readable (w.pfds i).revents → r.handle i (w.pfds i).fd) ∧
        KeptFrom r w (i + 1) := by
  refine ⟨fun h => ⟨h i (Nat.le_refl i), fun j hj => h j (by omega)⟩, fun ⟨hi, h⟩ j hj => ?_⟩
  obtain rfl | hj : i = j ∨ i + 1 ≤ j := by omega
  · exact hi
  · exact h j hj

theorem keptFrom_last (h : w.pfdCount ≤ i + 1) : KeptFrom r w i := fun j _ _ => by omega

/-- The loop passes the places one after the other, and comes to the last one if and only if no
entry was moved from there. -/
theorem loop_handled (r : Round) (es : List PollEvent) (fuel : Nat) (h : w.Sound) (hpos : 0 < i)
    (hi : i ≤ w.pfdCount) (hfuel : w.pfdCount ≤ i + fuel) :
    ∃ n, i + n ≤ w.pfdCount ∧ (i + n = w.pfdCount ↔ KeptFrom r w i) ∧
      (loop r fuel i (w, es)).2.filterMap PollEvent.handled? =
        es.filterMap PollEvent.handled? ++ w.readableFrom i n := by
  induction fuel generalizing i w es with
  | zero =>
    refine ⟨0, hi, iff_of_true (by omega) (keptFrom_last (by omega)), ?_⟩
    rw [loop_zero, readableFrom_zero, List.append_nil]
  | succ fuel ih =>
    rw [loop_succ]
    dsimp only
    split_ifs with hlt
    · obtain ⟨hready, heq⟩ | ⟨hready, hkept, heq⟩ | ⟨hready, hkept, heq⟩ :=
        turn_cases r es h hlt hpos
      · obtain ⟨n, hle, hiff, hhandled⟩ := ih es h (Nat.succ_pos i) hlt (by omega)
        refine ⟨n + 1, by omega, ?_, ?_⟩
        · rw [keptFrom_succ, ← hiff]
          simp only [hready, Bool.false_eq_true, false_implies, implies_true, true_and]
          omega
        · rw [heq, hhandled, readableFrom_succ]
          simp [hready]
      · obtain ⟨n, hle, hiff, hhandled⟩ :=
          ih (es ++ [.handle (w.pfds i).fd]) h (Nat.succ_pos i) hlt (by omega)
        refine ⟨n + 1, by omega, ?_, ?_⟩
        · rw [keptFrom_succ, ← hiff]
          simp only [hkept, implies_true, true_and]
          omega
        · rw [heq, hhandled, readableFrom_succ]
          simp [hready, PollEvent.handled?]
      · rw [heq]
        obtain hlast | hlast : i + 1 = w.pfdCount ∨ i + 1 < w.pfdCount := by omega
        · refine ⟨1, by omega, iff_of_true hlast (keptFrom_last (by omega)), ?_⟩
          have hdone : ¬ i + 1 < (w.delFromPfds i).pfdCount := by
            rw [delFromPfds_pfdCount]
            omega
          rw [loop_done hdone, readableFrom_succ, readableFrom_zero]
          simp [hready, PollEvent.handled?]
        · -- the last entry is moved to a place that the loop leaves
          obtain ⟨n, hle, -, hhandled⟩ :=
            ih (es ++ [.handle (w.pfds i).fd, .close (w.pfds i).fd])
              (h.delFromPfds hlt hpos) (Nat.succ_pos i) (by rw [delFromPfds_pfdCount]; omega)
              (by rw [delFromPfds_pfdCount]; omega)
          rw [delFromPfds_pfdCount] at hle
          refine ⟨n + 1, by omega, iff_of_false (by omega) fun hall => ?_, ?_⟩
          · rw [keptFrom_succ] at hall
            rw [hall.1 hlast hready] at hkept
            cases hkept
          · rw [hhandled, readableFrom_succ,
              readableFrom_congr n fun j hj => delFromPfds_pfds (by omega)]
            simp [hready, PollEvent.handled?]
    · refine ⟨0, hi, iff_of_true (by omega) (keptFrom_last (by omega)), ?_⟩
      rw [readableFrom_zero, List.append_nil]

theorem mem_readableFrom {fd : Int} {n : Nat} :
    fd ∈ w.readableFrom i n ↔
      ∃ j, i ≤ j ∧ j < i + n ∧ readable (w.pfds j).revents ∧ (w.pfds j).fd = fd := by
  simp only [readableFrom, List.mem_map, List.mem_filter, List.mem_range'_1, and_assoc]

theorem Sound.nodup_readableFrom (h : w.Sound) {n : Nat} (hn : i + n ≤ w.pfdCount) :
    (w.readableFrom i n).Nodup := by
  unfold readableFrom
  apply List.Nodup.map_on
  · intro j hj k hk hsame
    rw [List.mem_filter, List.mem_range'_1] at hj hk
    exact h.distinct j k (by omega) (by omega) hsame
  · exact (List.nodup_range' (n := n)).filter _

/-- The entries that are readable once the first place is done with, and whether the last of them
is come to. -/
theorem handledIn_eq (h : w.Sound) (hnew : w.Possible r) :
    ∃ n, let w' := (turn r 0 (w.poll r, [])).1
      1 + n ≤ w'.pfdCount ∧ (1 + n = w'.pfdCount ↔ KeptFrom r w' 1) ∧
        w.handledIn r = w'.readableFrom 1 n := by
  have hsound := h.turn_zero hnew
  unfold handledIn
  rw [servingPoll_eq h]
  obtain ⟨-, heq⟩ | ⟨-, heq⟩ := turn_zero_cases r (t := (w.poll r, [])) (h.poll r)
  · rw [heq] at hsound ⊢
    have hpos := hsound.pos
    obtain ⟨n, hle, hiff, hhandled⟩ := loop_handled r [] w.pfdCount
      hsound Nat.one_pos hpos (by rw [poll_pfdCount]; omega)
    exact ⟨n, hle, hiff, hhandled⟩
  · rw [heq] at hsound ⊢
    obtain ⟨n, hle, hiff, hhandled⟩ := loop_handled r
      [.accept (r.accept 0)] w.pfdCount hsound Nat.one_pos
      (by rw [addToPfds_pfdCount]; omega) (by rw [addToPfds_pfdCount, poll_pfdCount]; omega)
    exact ⟨n, hle, hiff, hhandled⟩

/-- Every connection that was reported is kept. -/
theorem keptFrom_added (h : w.Sound) {newfd : Int} :
    KeptFrom r ((w.poll r).addToPfds r.fresh newfd) 1 ↔
      ∀ i < w.pfdCount, 0 < i → readable (r.revents i) → r.handle i (w.pfds i).fd := by
  unfold KeptFrom
  rw [addToPfds_pfdCount, poll_pfdCount]
  have hentry : ∀ i < w.pfdCount, ((w.poll r).addToPfds r.fresh newfd).pfds i = (w.poll r).pfds i :=
    fun i hi => addToPfds_pfds (h.poll r).fits hi
  constructor
  · intro hkept i hi hpos
    have := hkept i hpos (by omega)
    rwa [hentry i hi, poll_pfds_revents hi, poll_pfds_fd] at this
  · intro hkept i hpos hi
    have hi : i < w.pfdCount := by omega
    rw [hentry i hi, poll_pfds_revents hi, poll_pfds_fd]
    exact hkept i hi hpos

/-- What the round handles was reported, but for an entry that was appended. -/
theorem onlyReady_iff (h : w.Sound) (hnew : w.Possible r) : w.OnlyReady r ↔ ¬ w.Stale r := by
  have hsound := h.turn_zero hnew
  obtain ⟨n, hle, hiff, hhandled⟩ := handledIn_eq h hnew
  have hnodup := hsound.nodup_readableFrom hle
  have hfirst : ((w.poll r).pfds 0).revents = r.revents 0 := poll_pfds_revents h.pos
  unfold OnlyReady
  rw [hhandled, and_iff_left hnodup]
  obtain ⟨hno, heq⟩ | ⟨hyes, heq⟩ := turn_zero_cases r (t := (w.poll r, [])) (h.poll r)
  · rw [hfirst] at hno
    refine iff_of_true (fun fd hfd => ?_) fun hstale => hno ⟨hstale.1, hstale.2.1⟩
    rw [heq] at hfd hle
    obtain ⟨j, -, hj, hready, rfl⟩ := mem_readableFrom.mp hfd
    have hj : j < w.pfdCount := Nat.lt_of_lt_of_le hj hle
    rw [poll_pfds_revents hj] at hready
    exact ⟨j, hj, poll_pfds_fd.symm, hready⟩
  · rw [hfirst] at hyes
    rw [heq] at hle hiff ⊢
    rw [addToPfds_pfdCount, poll_pfdCount] at hle hiff
    have hlast : (((w.poll r).addToPfds r.fresh (r.accept 0)).pfds w.pfdCount).fd = r.accept 0 :=
      addToPfds_last (w := w.poll r)
    constructor
    · rintro honly ⟨-, hfd, hslot, hkept⟩
      have hcome : 1 + n = w.pfdCount + 1 := hiff.mpr ((keptFrom_added h).mpr hkept)
      obtain ⟨j, hj, hsame, -⟩ := honly (r.accept 0) (mem_readableFrom.mpr
        ⟨w.pfdCount, h.pos, by omega, by rwa [addToPfds_last_revents], hlast⟩)
      exact hnew 0 hfd j hj hsame
    · intro hclean fd hfd
      obtain ⟨j, -, hj, hready, rfl⟩ := mem_readableFrom.mp hfd
      obtain hj | rfl : j < w.pfdCount ∨ j = w.pfdCount := by omega
      · rw [addToPfds_pfds (h.poll r).fits hj, poll_pfds_revents hj] at hready
        rw [addToPfds_pfds (h.poll r).fits hj, poll_pfds_fd]
        exact ⟨j, hj, rfl, hready⟩
      · rw [addToPfds_last_revents] at hready
        have hkept := (keptFrom_added h).mp (hiff.mp (by omega))
        exact absurd ⟨hyes.1, hyes.2, hready, hkept⟩ hclean

/-- From the start on, the requests that are handled are those that were reported, each once, as
long as no connection is accepted into a slot that holds an old report in a round that closes
nothing. -/
theorem onlyReady_run_iff (serverFd : Int) (memory : Nat → PollFd) (rounds : List Round)
    (hnew : Steps step Possible (init serverFd memory) rounds) :
    Steps step OnlyReady (init serverFd memory) rounds ↔
      Steps step (fun w r => ¬ w.Stale r) (init serverFd memory) rounds := by
  have hsound := hnew.with_invariant Sound (fun _ _ hnew h => h.step hnew)
    (sound_init serverFd memory)
  constructor
  · exact fun h => (steps_and.mpr ⟨hsound, h⟩).imp fun _ _ h => (onlyReady_iff h.1.1 h.1.2).mp h.2
  · exact fun h => (steps_and.mpr ⟨hsound, h⟩).imp fun _ _ h => (onlyReady_iff h.1.1 h.1.2).mpr h.2

/-- Memory of zeros. -/
def blank : Nat → PollFd := fun _ => ⟨0, 0, 0⟩

/-- A round in which the entries at the places in `ready` are reported. -/
def round (ready : List Nat) (newfd : Int) (kept : Bool) : Round where
  revents i := if i ∈ ready then pollin else 0
  accept _ := newfd
  handle _ _ := kept
  fresh := blank

/-- A connection is accepted, its request fails and it is closed, and another one is accepted. -/
def reusing : List Round := [round [0] 4 true, round [1] (-1) false, round [0] 5 true]

theorem possible_reusing : Steps step Possible (init 3 blank) reusing := by
  refine ⟨fun _ _ => ?_, fun _ hfd => absurd rfl hfd, fun _ _ => ?_, trivial⟩
  · exact (by decide : ∀ j < (init 3 blank).pfdCount, ((init 3 blank).pfds j).fd ≠ 4)
  · exact (by decide : ∀ j < (run step (init 3 blank) (reusing.take 2)).pfdCount,
      ((run step (init 3 blank) (reusing.take 2)).pfds j).fd ≠ 5)

theorem onlyReady_run_iff_reusing :
    Steps step OnlyReady (init 3 blank) reusing ↔
      Steps step (fun w r => ¬ w.Stale r) (init 3 blank) reusing :=
  onlyReady_run_iff 3 blank reusing possible_reusing

/-- The new connection is handled because of what was reported about the old one. -/
theorem onlyReady_run_stale :
    ¬ ∀ (serverFd : Int) (memory : Nat → PollFd) (rounds : List Round),
      Steps step Possible (init serverFd memory) rounds →
        Steps step OnlyReady (init serverFd memory) rounds := by
  intro hclaim
  obtain ⟨-, -, ⟨hready, -⟩, -⟩ := hclaim 3 blank reusing possible_reusing
  obtain ⟨i, hi, hfd, -⟩ := hready 5 (by decide)
  exact absurd hfd ((by decide : ∀ j < (run step (init 3 blank) (reusing.take 2)).pfdCount,
    ((run step (init 3 blank) (reusing.take 2)).pfds j).fd ≠ 5) i hi)

end ServingData

end MeshNet
