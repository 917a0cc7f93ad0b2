import MeshNet.Polling

/-!
# The poll array and the open connections

What the poll array holds at any moment, also in the middle of a round: the listening socket in
front and behind it, each once, the connections that were accepted and not closed since. Which
connections these are is read off the trace of what the loop did with descriptors.
-/

namespace MeshNet
open Library

/-- What comes of a call of `handle_request`. -/
def PollEvent.isAnswer : PollEvent → Bool
  | .accept _ => false
  | .handle _ => true
  | .close _ => true

/-- The connections that are open after one more event. -/
def PollEvent.apply (connections : List Int) : PollEvent → List Int
  | .accept fd => connections ++ [fd]
  | .handle _ => connections
  | .close fd => connections.filter (· ≠ fd)

/-- The connections that were accepted and not closed since. -/
def connections (es : List PollEvent) : List Int := es.foldl PollEvent.apply []

variable {es : List PollEvent} {fd newfd : Int}

theorem connections_append (es : List PollEvent) (e : PollEvent) :
    connections (es ++ [e]) = e.apply (connections es) := by
  unfold connections
  rw [List.foldl_append]
  rfl

theorem mem_connections_accept :
    fd ∈ connections (es ++ [.accept newfd]) ↔ fd ∈ connections es ∨ fd = newfd := by
  simp [connections_append, PollEvent.apply]

theorem connections_handle : connections (es ++ [.handle newfd]) = connections es :=
  connections_append es (.handle newfd)

theorem mem_connections_close :
    fd ∈ connections (es ++ [.handle newfd, .close newfd]) ↔ fd ∈ connections es ∧ fd ≠ newfd := by
  have hsplit :
      es ++ [.handle newfd, .close newfd] = (es ++ [.handle newfd]) ++ [.close newfd] := by
    simp
  rw [hsplit, connections_append, connections_handle]
  simp [PollEvent.apply]

namespace ServingData

variable {w : ServingData} {r : Round} {t : ServingData × List PollEvent} {fuel i j : Nat}
  {serverFd : Int}

/-! ## Descriptors in the array -/

/-- Some entry in use has the descriptor. -/
def Has (w : ServingData) (fd : Int) : Prop := ∃ i < w.pfdCount, (w.pfds i).fd = fd

theorem poll_has : (w.poll r).Has fd ↔ w.Has fd := by
  simp [Has]

theorem addToPfds_has (hfits : w.pfdCount ≤ w.pfdCapacity) {fresh : Nat → PollFd} :
    (w.addToPfds fresh newfd).Has fd ↔ w.Has fd ∨ fd = newfd := by
  constructor
  · rintro ⟨i, hi, hfd⟩
    rw [addToPfds_pfdCount] at hi
    rcases Nat.lt_succ_iff_lt_or_eq.mp hi with hi | rfl
    · rw [addToPfds_pfds hfits hi] at hfd
      exact .inl ⟨i, hi, hfd⟩
    · exact .inr (hfd.symm.trans addToPfds_last)
  · rintro (⟨i, hi, hfd⟩ | rfl)
    · refine ⟨i, by rw [addToPfds_pfdCount]; omega, ?_⟩
      rw [addToPfds_pfds hfits hi, hfd]
    · exact ⟨w.pfdCount, by rw [addToPfds_pfdCount]; omega, addToPfds_last⟩

theorem Sound.delFromPfds_has (h : w.Sound) (hi : i < w.pfdCount) :
    (w.delFromPfds i).Has fd ↔ w.Has fd ∧ fd ≠ (w.pfds i).fd := by
  constructor
  · rintro ⟨j, hj, rfl⟩
    rw [delFromPfds_pfdCount] at hj
    obtain ⟨k, hk, heq, hcase⟩ := delFromPfds_source hi hj
    rw [heq]
    refine ⟨⟨k, hk, rfl⟩, ?_⟩
    intro hsame
    have hki := h.distinct k i hk hi hsame
    omega
  · rintro ⟨⟨j, hj, rfl⟩, hne⟩
    have hji : j ≠ i := by
      rintro rfl
      exact hne rfl
    -- the last entry is found where the deleted one was
    by_cases hlast : j = w.pfdCount - 1
    · refine ⟨i, by rw [delFromPfds_pfdCount]; omega, ?_⟩
      have hmoved : (w.delFromPfds i).pfds i = w.pfds (w.pfdCount - 1) := Function.update_self ..
      rw [hmoved, hlast]
    · refine ⟨j, by rw [delFromPfds_pfdCount]; omega, ?_⟩
      rw [delFromPfds_pfds hji]

/-! ## The invariant -/

/-- The array says what the trace says. -/
structure Faithful (serverFd : Int) (es : List PollEvent) (w : ServingData) : Prop where
  sound : w.Sound
  listening : w.serverFd = serverFd
  exact : ∀ fd, w.Has fd ↔ fd = serverFd ∨ fd ∈ connections es

theorem faithful_init (serverFd : Int) (memory : Nat → PollFd) :
    Faithful serverFd [] (init serverFd memory) where
  sound := sound_init serverFd memory
  listening := rfl
  exact fd := by
    have hcount : (init serverFd memory).pfdCount = 1 := rfl
    have hfirst := (sound_init serverFd memory).head
    have hserver : (init serverFd memory).serverFd = serverFd := rfl
    simp only [Has, hcount, Nat.lt_one_iff, exists_eq_left, hfirst, hserver, connections,
      List.foldl_nil, List.not_mem_nil, or_false]
    exact eq_comm

theorem Faithful.poll (h : Faithful serverFd es w) (r : Round) :
    Faithful serverFd es (w.poll r) where
  sound := h.sound.poll r
  listening := h.listening
  exact fd := poll_has.trans (h.exact fd)

theorem Faithful.turn_zero (h : Faithful serverFd es w) (hnew : w.Possible r) :
    Faithful serverFd (turn r 0 (w.poll r, es)).2 (turn r 0 (w.poll r, es)).1 := by
  have hpoll := h.poll r
  rcases turn_zero_cases r (t := (w.poll r, es)) hpoll.sound with ⟨-, heq⟩ | ⟨⟨-, hfd⟩, heq⟩
  · rw [heq]
    exact hpoll
  · rw [heq]
    constructor
    · apply hpoll.sound.addToPfds
      intro j hj
      rw [poll_pfds_fd]
      exact hnew 0 hfd j hj
    · rw [addToPfds_serverFd]
      exact hpoll.listening
    · intro fd
      rw [addToPfds_has hpoll.sound.fits, hpoll.exact fd, mem_connections_accept, or_assoc]

theorem Faithful.turn (h : Faithful serverFd es w) (hi : i < w.pfdCount) (hpos : 0 < i) :
    Faithful serverFd (turn r i (w, es)).2 (turn r i (w, es)).1 := by
  rcases turn_cases r es h.sound hi hpos with ⟨-, heq⟩ | ⟨-, -, heq⟩ | ⟨-, -, heq⟩
  · rw [heq]
    exact h
  · rw [heq]
    refine ⟨h.sound, h.listening, ?_⟩
    intro fd
    rw [connections_handle]
    exact h.exact fd
  · have hserver : serverFd ≠ (w.pfds i).fd := by
      rw [← h.listening]
      exact (h.sound.fd_ne hi hpos).symm
    rw [heq]
    refine ⟨h.sound.delFromPfds hi hpos, h.listening, ?_⟩
    intro fd
    rw [h.sound.delFromPfds_has hi, h.exact fd, mem_connections_close]
    grind

theorem Faithful.loop (h : Faithful serverFd t.2 t.1) (hpos : 0 < i) :
    Faithful serverFd (loop r fuel i t).2 (loop r fuel i t).1 := by
  induction fuel generalizing i t with
  | zero => exact h
  | succ fuel ih =>
    rw [loop_succ]
    split_ifs with hi
    · exact ih (h.turn hi hpos) (Nat.succ_pos i)
    · exact h

/-- However many turns the loop of a round has made. -/
theorem Faithful.turns (h : Faithful serverFd es w) (hnew : w.Possible r) (n : Nat) :
    Faithful serverFd (ServingData.loop r n 0 (w.poll r, es)).2
      (ServingData.loop r n 0 (w.poll r, es)).1 := by
  cases n with
  | zero => exact h.poll r
  | succ n =>
    rw [loop_succ, if_pos (h.poll r).sound.pos]
    exact (h.turn_zero hnew).loop Nat.one_pos

/-! ## Traces -/

theorem turn_append (r : Round) (i : Nat) (es es' : List PollEvent) (w : ServingData) :
    ServingData.turn r i (w, es ++ es') =
      ((ServingData.turn r i (w, es')).1, es ++ (ServingData.turn r i (w, es')).2) := by
  unfold ServingData.turn
  dsimp only
  split_ifs <;> simp

/-- What was done before the loop does not matter to it. -/
theorem loop_append (r : Round) (fuel i : Nat) (es es' : List PollEvent) (w : ServingData) :
    ServingData.loop r fuel i (w, es ++ es') =
      ((ServingData.loop r fuel i (w, es')).1, es ++ (ServingData.loop r fuel i (w, es')).2) := by
  induction fuel generalizing i es' w with
  | zero => rfl
  | succ fuel ih =>
    rw [loop_succ, loop_succ, turn_append]
    dsimp only
    split_ifs
    · exact ih (i + 1) (ServingData.turn r i (w, es')).2 (ServingData.turn r i (w, es')).1
    · rfl

/-- What the rounds do with descriptors, in order. -/
def history (w : ServingData) : List Round → List PollEvent
  | [] => []
  | r :: rounds => (w.servingPoll r).2 ++ history (w.step r) rounds

theorem Faithful.servingPoll (h : Faithful serverFd es w) (hnew : w.Possible r) :
    Faithful serverFd (es ++ (w.servingPoll r).2) (w.step r) := by
  have hround := h.turns hnew (w.pfdCount + 1)
  rw [← List.append_nil es, loop_append] at hround
  exact hround

theorem Faithful.run {rounds : List Round} (h : Faithful serverFd es w)
    (hnew : Steps step Possible w rounds) :
    Faithful serverFd (es ++ w.history rounds) (run step w rounds) := by
  induction rounds generalizing es w with
  | nil =>
    rw [history, List.append_nil]
    exact h
  | cons r rounds ih =>
    rw [history, ← List.append_assoc]
    exact ih (h.servingPoll hnew.1) hnew.2

/-! ## Calls of the handler -/

/-- The call that a turn makes, if any, and whether it succeeds. -/
def call? (r : Round) (i : Nat) (w : ServingData) : Option (Int × Bool) :=
  let fd := (w.pfds i).fd
  if readable (w.pfds i).revents ∧ fd ≠ w.serverFd then some (fd, r.handle i fd) else none

/-- The calls that the loop makes from place `i` on, in order. -/
def calls (r : Round) : (fuel i : Nat) → ServingData → List (Int × Bool)
  | 0, _, _ => []
  | fuel + 1, i, w =>
    if i < w.pfdCount then
      (call? r i w).toList ++ calls r fuel (i + 1) (ServingData.turn r i (w, [])).1
    else []

/-- What is done about a call: where it fails the connection is closed. -/
def answer (c : Int × Bool) : List PollEvent :=
  if c.2 then [.handle c.1] else [.handle c.1, .close c.1]

/-- The events of a turn other than an accepted connection are those of its call. -/
theorem turn_filter (r : Round) (i : Nat) (w : ServingData) :
    (ServingData.turn r i (w, [])).2.filter PollEvent.isAnswer =
      (call? r i w).toList.flatMap answer := by
  unfold ServingData.turn call?
  dsimp only
  split_ifs <;> simp_all [answer, PollEvent.isAnswer]

theorem loop_filter (r : Round) (fuel i : Nat) (w : ServingData) :
    (ServingData.loop r fuel i (w, [])).2.filter PollEvent.isAnswer =
      (calls r fuel i w).flatMap answer := by
  induction fuel generalizing i w with
  | zero => rfl
  | succ fuel ih =>
    rw [loop_succ, calls]
    split_ifs with hi
    · have hsplit := loop_append r fuel (i + 1) (ServingData.turn r i (w, [])).2 []
        (ServingData.turn r i (w, [])).1
      rw [List.append_nil] at hsplit
      rw [hsplit, List.filter_append, turn_filter, ih, List.flatMap_append]
    · rfl

/-- After every run of rounds, and at every moment of the next one, the array holds the listening
socket in front, nothing twice, and of connections those that were accepted and not closed since;
and a connection is closed when a call of its handler fails and only then. -/
theorem faithful_run (serverFd : Int) (memory : Nat → PollFd) (rounds : List Round)
    (hnew : Steps step Possible (init serverFd memory) rounds) :
    let w := run step (init serverFd memory) rounds
    let past := (init serverFd memory).history rounds
    Faithful serverFd past w ∧
      ∀ r, w.Possible r →
        (∀ n, let t := ServingData.loop r n 0 (w.poll r, [])
          Faithful serverFd (past ++ t.2) t.1 ∧
            t.2.filter PollEvent.isAnswer = (calls r n 0 (w.poll r)).flatMap answer) ∧
        ∀ n, ServingData.loop r (w.pfdCount + 1 + n) 0 (w.poll r, []) = w.servingPoll r := by
  have hrun := (faithful_init serverFd memory).run hnew
  refine ⟨hrun, ?_⟩
  intro r hr
  refine ⟨?_, servingPoll_fuel hrun.sound hr⟩
  intro n
  refine ⟨?_, loop_filter r n 0 _⟩
  have hturns := hrun.turns hr n
  rw [← List.append_nil ([] ++ _), loop_append] at hturns
  exact hturns

theorem faithful_run_reusing :
    Faithful 3 ((init 3 blank).history reusing) (run step (init 3 blank) reusing) :=
  (faithful_run 3 blank reusing possible_reusing).1

end ServingData

end MeshNet
