import MeshNet.Server.Processes

/-!
# How the nodes are ended

On `SIGTERM` the server sends `SIGINT` to the processes in its table of children and ends. As long
as only children were forked anew that had reported and were sent `SIGTERM`, no process is left
behind, and none is sent the signal twice.
-/

namespace MeshNet
open Library

/-- The processes that `term_handler` sends `SIGINT`, in the order of the table. -/
def Server.termHandler (s : Server) : List Int32 :=
  s.children.filterMap fun child => if child.pid > 0 then some child.pid else none

/-- Processes have positive numbers. -/
def Processes.Positive (p : Processes) : Prop := ∀ q, p.startedAs q ≠ none → 0 < q

variable {p : Processes} {s : Server} {es : ServerTrace} {pids : List Int32}
  {reported : Int32 → Bool} {q : Int32}

theorem Server.mem_termHandler : q ∈ s.termHandler ↔ 0 < q ∧ ∃ c ∈ s.children, c.pid = q := by
  simp only [termHandler, List.mem_filterMap, Option.ite_none_right_eq_some, Option.some.injEq]
  constructor
  · rintro ⟨c, hc, hpos, rfl⟩
    exact ⟨hpos, c, hc, rfl⟩
  · rintro ⟨hpos, c, hc, rfl⟩
    exact ⟨c, hc, hpos, rfl⟩

theorem Processes.Positive.observe (h : p.Positive) (e : ServerEvent) :
    (p.observe e).Positive := by
  cases e with
  | fork addr pid =>
    rw [Processes.observe]
    split
    · rename_i hpos
      intro q hq
      by_cases heq : q = pid
      · exact heq ▸ hpos
      · exact h q (by simpa [Function.update_of_ne heq] using hq)
    · exact h
  | kill pid =>
    rw [Processes.observe]
    split <;> exact h
  | write | close | connect => exact h

theorem Processes.Positive.foldl (h : p.Positive) (es : ServerTrace) :
    (es.foldl Processes.observe p).Positive := by
  induction es generalizing p with
  | nil => exact h
  | cons e es ih => exact ih (h.observe e)

namespace Tracked

variable (h : Tracked pids s.children p reported)
include h

/-- Every process that runs is ended. -/
theorem mem_termHandler_of_running (hpos : p.Positive) (hq : p.running q = true) :
    q ∈ s.termHandler := by
  obtain ⟨hstarted, hslot⟩ := h.running q hq
  exact Server.mem_termHandler.mpr ⟨hpos q hstarted, hslot⟩

/-- Only processes of the nodes are ended. -/
theorem startedAs_of_mem_termHandler (hq : q ∈ s.termHandler) :
    ∃ i < nodeCount, p.startedAs q = some (UInt8.ofNat i) := by
  obtain ⟨hpos, c, hc, rfl⟩ := Server.mem_termHandler.mp hq
  obtain ⟨i, hi⟩ := List.getElem?_of_mem hc
  refine ⟨i, h.lt hi, (h.started i c hi).resolve_left fun hneg => ?_⟩
  rw [hneg] at hpos
  exact absurd hpos (by decide)

theorem nodup_termHandler : s.termHandler.Nodup := by
  rw [Server.termHandler, List.Nodup, List.pairwise_filterMap, List.pairwise_iff_getElem]
  intro i j hi hj hij q hq q' hq' heq
  simp only [Option.ite_none_right_eq_some, Option.some.injEq] at hq hq'
  obtain ⟨hpos, rfl⟩ := hq
  obtain ⟨-, rfl⟩ := hq'
  have hci := List.getElem?_eq_getElem hi
  have hmem : s.children[i].pid ∈ s.termHandler :=
    Server.mem_termHandler.mpr ⟨hpos, _, List.getElem_mem hi, rfl⟩
  obtain ⟨_, -, hstarted⟩ := h.startedAs_of_mem_termHandler hmem
  have hsame := h.slot_inj hci (List.getElem?_eq_getElem hj) (by simp [hstarted]) heq
  exact absurd hsame (Nat.ne_of_lt hij)

end Tracked

namespace Fleet

theorem positive_start (hpos : ∀ pid ∈ pids, 0 < pid) : (start pids).processes.Positive := by
  intro q hq
  obtain ⟨addr, haddr⟩ := Option.ne_none_iff_exists'.mp hq
  obtain ⟨i, hi, -⟩ := Option.map_eq_some_iff.mp haddr
  obtain ⟨hlt, heq, -⟩ := List.findIdx?_eq_some_iff_getElem.mp hi
  exact hpos q (beq_iff_eq.mp heq ▸ List.getElem_mem hlt)

/-- As long as no child is forked anew that still runs, the server ends every process that runs,
each once, and none but processes of the nodes. -/
theorem termHandler_run (pids : List Int32) (hlength : pids.length = nodeCount)
    (hnodup : pids.Nodup) (hpos : ∀ pid ∈ pids, 0 < pid) (xs : List Arrived)
    (h : Steps step (fun w x => w.Possible x ∧ w.Due x) (start pids) xs) :
    let w := run step (start pids) xs
    (∀ q, w.processes.running q = true → q ∈ w.server.termHandler) ∧
      w.server.termHandler.Nodup ∧
        ∀ q ∈ w.server.termHandler, ∃ i < nodeCount,
          w.processes.startedAs q = some (UInt8.ofNat i) := by
  intro w
  have htracked : Tracked pids w.server.children w.processes w.reported :=
    h.invariant (fun w => Tracked pids w.server.children w.processes w.reported)
      (fun _ _ hx => tracked_step hx.1 hx.2) (tracked_start hlength hnodup hpos)
  have hpositive : w.processes.Positive :=
    h.invariant (fun w => w.processes.Positive) (fun _ _ _ hw => hw.foldl _) (positive_start hpos)
  exact ⟨fun q => htracked.mem_termHandler_of_running hpositive, htracked.nodup_termHandler,
    fun q => htracked.startedAs_of_mem_termHandler⟩

theorem termHandler_run_revived :
    let w := run step (start forked) (reports ++ [killed 5, revived 5 101])
    (∀ q, w.processes.running q = true → q ∈ w.server.termHandler) ∧
      w.server.termHandler.Nodup ∧
        ∀ q ∈ w.server.termHandler, ∃ i < nodeCount,
          w.processes.startedAs q = some (UInt8.ofNat i) :=
  termHandler_run forked (by decide) (by decide +kernel) forked_pos _ steps_revived.1

end Fleet

end MeshNet
