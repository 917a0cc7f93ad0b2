import MeshNet.Library.Run
import Mathlib.Data.Nat.Find

/-!
# Endless runs

A run that goes on for ever is fair to what it serves again and again. What waits in a queue that is
served again and again comes to its front, and what every service brings nearer to its rest comes
to rest.
-/

namespace MeshNet.Library

variable {σ ι μ : Type} (step : σ → ι → σ) (s : σ) (labels : Nat → ι)

/-- The state after the first `n` inputs of an endless run. -/
def endless : Nat → σ
  | 0 => s
  | n + 1 => step (endless n) (labels n)

/-- Inputs of the kind come again and again. -/
def Recurs (kind : ι → Prop) : Prop := ∀ n, ∃ k, kind (labels (n + k))

variable {step s labels}

theorem endless_eq_run (n : Nat) :
    endless step s labels n = run step s ((List.range n).map labels) := by
  induction n with
  | zero => rfl
  | succ n ih => simp [endless, ih, List.range_succ]

/-- There is a first time from now on at which an input of the kind comes. -/
theorem Recurs.exists_first {kind : ι → Prop} (h : Recurs labels kind) (n : Nat) :
    ∃ k, kind (labels (n + k)) ∧ ∀ j < k, ¬ kind (labels (n + j)) := by
  classical
  exact ⟨Nat.find (h n), Nat.find_spec (h n), fun _ => Nat.find_min (h n)⟩

section
variable (queue : σ → List μ) {serves : ι → Prop}
  (hother : ∀ s i, ¬ serves i → ∃ ms, queue (step s i) = queue s ++ ms)
include hother

/-- Until a queue is served, nothing leaves it. -/
theorem queue_unserved {n k : Nat} (hk : ∀ j < k, ¬ serves (labels (n + j))) :
    ∃ ms, queue (endless step s labels (n + k)) = queue (endless step s labels n) ++ ms := by
  induction k with
  | zero => exact ⟨[], (List.append_nil _).symm⟩
  | succ k ih =>
    obtain ⟨ms, hms⟩ := ih fun j hj => hk j (Nat.lt_succ_of_lt hj)
    obtain ⟨ms', hms'⟩ := hother (endless step s labels (n + k)) _ (hk k (Nat.lt_succ_self k))
    exact ⟨ms ++ ms', hms'.trans (by rw [hms, List.append_assoc])⟩

/-- What waits in a queue that is served again and again, and that others only put something
behind, is first in the queue at some later time when it is served. -/
theorem exists_served (hfair : Recurs labels serves)
    (hserve : ∀ s i, serves i → ∃ ms, queue (step s i) = (queue s).tail ++ ms) {n : Nat} {m : μ}
    (hm : m ∈ queue (endless step s labels n)) :
    ∃ k, serves (labels (n + k)) ∧
      ∃ ms, queue (endless step s labels (n + k)) = m :: ms := by
  obtain ⟨front, back, hqueue⟩ := List.append_of_mem hm
  clear hm
  induction front generalizing n back with
  | nil =>
    obtain ⟨k, hk, hfirst⟩ := hfair.exists_first n
    obtain ⟨ms, hms⟩ := queue_unserved queue hother hfirst
    exact ⟨k, hk, back ++ ms, by rw [hms, hqueue]; rfl⟩
  | cons m' front ih =>
    obtain ⟨k, hk, hfirst⟩ := hfair.exists_first n
    obtain ⟨ms, hms⟩ := queue_unserved queue hother hfirst
    obtain ⟨ms', hms'⟩ := hserve (endless step s labels (n + k)) _ hk
    have hnext : queue (endless step s labels (n + k + 1)) =
        front ++ m :: (back ++ ms ++ ms') := by
      refine hms'.trans ?_
      rw [hms, hqueue]
      simp
    obtain ⟨k', hk'⟩ := ih _ hnext
    exact ⟨k + 1 + k', by rwa [← Nat.add_assoc, ← Nat.add_assoc]⟩

end

/-! ## Counting down -/

/-- As long as the steps meet `Q`, at most as many of them meet `P` as `I` allows. -/
def CountsDown (step : σ → ι → σ) (Q P : σ → ι → Prop) (I : Nat → σ → Prop) : Prop :=
  ∀ n s i, Q s i → I n s → ∃ n', I n' (step s i) ∧ n' ≤ n ∧ (P s i → n' < n)

namespace CountsDown

variable {Q P : σ → ι → Prop} {I : Nat → σ → Prop}

/-- Over a run, the steps that meet `P` and those that are still allowed are no more than were
allowed before. -/
theorem countSteps_le (h : CountsDown step Q P I) [∀ s i, Decidable (P s i)] {n : Nat}
    {is : List ι} (his : Steps step Q s is) (hs : I n s) :
    ∃ n', I n' (run step s is) ∧ countSteps step P s is + n' ≤ n := by
  induction is generalizing s n with
  | nil => exact ⟨n, hs, by simp⟩
  | cons i is ih =>
    obtain ⟨n', hn', hle, hlt⟩ := h n s i his.1 hs
    obtain ⟨n'', hn'', hcount⟩ := ih his.2 hn'
    refine ⟨n'', hn'', ?_⟩
    rw [countSteps_cons]
    split
    · have := hlt ‹_›
      omega
    · omega

/-- A machine whose steps are steps of another one, or none, counts down what that one does. -/
theorem pullback {τ κ : Type} {step' : τ → κ → τ} {Q' P' : τ → κ → Prop} {I' : Nat → τ → Prop}
    (h : CountsDown step' Q' P' I') {R : σ → τ → Prop}
    (hstep : ∀ s t i, Q s i → R s t →
      (∃ j, Q' t j ∧ R (step s i) (step' t j) ∧ (P s i → P' t j)) ∨ R (step s i) t ∧ ¬ P s i) :
    CountsDown step Q P fun n s => ∃ t, R s t ∧ I' n t := by
  rintro n s i hi ⟨t, hst, ht⟩
  obtain ⟨j, hj, hst', hp⟩ | ⟨hst', hno⟩ := hstep s t i hi hst
  · obtain ⟨n', hn', hle, hlt⟩ := h n t j hj ht
    exact ⟨n', ⟨_, hst', hn'⟩, hle, fun hyes => hlt (hp hyes)⟩
  · exact ⟨n, ⟨t, hst', ht⟩, Nat.le_refl n, fun hyes => absurd hyes hno⟩

/-- What every step keeps may be asked for besides. -/
theorem and {J : σ → Prop} (h : CountsDown step Q P I)
    (hJ : ∀ s i, Q s i → J s → J (step s i)) :
    CountsDown step Q P fun n s => I n s ∧ J s := by
  rintro n s i hi ⟨hn, hs⟩
  obtain ⟨n', hn', hle, hlt⟩ := h n s i hi hn
  exact ⟨n', ⟨hn', hJ s i hi hs⟩, hle, hlt⟩

theorem kept (h : CountsDown step Q P I) (hQ : ∀ n, Q (endless step s labels n) (labels n))
    {n l : Nat} (hn : I l (endless step s labels n)) (k : Nat) :
    ∃ l' ≤ l, I l' (endless step s labels (n + k)) := by
  induction k with
  | zero => exact ⟨l, Nat.le_refl l, hn⟩
  | succ k ih =>
    obtain ⟨l', hle, hl'⟩ := ih
    obtain ⟨l'', hl'', hle', -⟩ := h l' _ _ (hQ (n + k)) hl'
    exact ⟨l'', Nat.le_trans hle' hle, hl''⟩

/-- An endless run in which a step that meets `P` comes again, as long as there is no rest, comes
to rest. -/
theorem exists_rest (h : CountsDown step Q P I) (hQ : ∀ n, Q (endless step s labels n) (labels n))
    {rest : σ → Prop}
    (hagain : ∀ n l, I l (endless step s labels n) → ¬ rest (endless step s labels n) →
      ∃ k, P (endless step s labels (n + k)) (labels (n + k)))
    {n l : Nat} (hn : I l (endless step s labels n)) :
    ∃ k l', I l' (endless step s labels (n + k)) ∧ rest (endless step s labels (n + k)) := by
  induction hl : l using Nat.strongRecOn generalizing n l with
  | ind m ih =>
    subst hl
    by_cases hrest : rest (endless step s labels n)
    · exact ⟨0, l, hn, hrest⟩
    · obtain ⟨k, hk⟩ := hagain n l hn hrest
      obtain ⟨l', hle, hl'⟩ := h.kept hQ hn k
      obtain ⟨l'', hl'', -, hlt⟩ := h l' _ _ (hQ (n + k)) hl'
      obtain ⟨k', hk'⟩ := ih l'' (Nat.lt_of_lt_of_le (hlt hk) hle) (n := n + k + 1) hl'' rfl
      exact ⟨k + 1 + k', by rwa [← Nat.add_assoc, ← Nat.add_assoc]⟩

end CountsDown

end MeshNet.Library
