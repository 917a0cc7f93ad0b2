import Mathlib.Data.List.Basic
import Mathlib.Tactic.Common

/-!
# Runs of a machine

A machine is a function that takes a state and an input to the next state. What its runs keep
is proved step by step; a condition may be put on the steps of a run, each of which is judged
by the state before it and by its input.
-/

namespace MeshNet.Library

variable {σ ι : Type}

/-- The state after a list of inputs. -/
def run (step : σ → ι → σ) (s : σ) (is : List ι) : σ := is.foldl step s

/-- Every step of the run meets `P`. -/
def Steps (step : σ → ι → σ) (P : σ → ι → Prop) : σ → List ι → Prop
  | _, [] => True
  | s, i :: is => P s i ∧ Steps step P (step s i) is

instance Steps.decidable (step : σ → ι → σ) (P : σ → ι → Prop) [∀ s i, Decidable (P s i)] :
    (s : σ) → (is : List ι) → Decidable (Steps step P s is)
  | _, [] => isTrue trivial
  | s, i :: is =>
    have := Steps.decidable step P (step s i) is
    inferInstanceAs (Decidable (P s i ∧ Steps step P (step s i) is))

/-- The number of steps of the run that meet `P`. -/
def countSteps (step : σ → ι → σ) (P : σ → ι → Prop) [∀ s i, Decidable (P s i)] : σ → List ι → Nat
  | _, [] => 0
  | s, i :: is => (if P s i then 1 else 0) + countSteps step P (step s i) is

variable {step : σ → ι → σ} {P : σ → ι → Prop} {s : σ} {i : ι} {is js : List ι}

@[simp] theorem run_nil : run step s [] = s := rfl

@[simp] theorem run_cons : run step s (i :: is) = run step (step s i) is := rfl

@[simp] theorem run_append : run step s (is ++ js) = run step (run step s is) js :=
  List.foldl_append

@[simp] theorem steps_nil : Steps step P s [] := trivial

@[simp] theorem steps_cons : Steps step P s (i :: is) ↔ P s i ∧ Steps step P (step s i) is :=
  Iff.rfl

theorem steps_append :
    Steps step P s (is ++ js) ↔ Steps step P s is ∧ Steps step P (run step s is) js := by
  induction is generalizing s with
  | nil => simp
  | cons i is ih => simp [ih, and_assoc]

/-- A condition that every input meets is met by every run. -/
theorem steps_of_forall (h : ∀ s, ∀ i ∈ is, P s i) : Steps step P s is := by
  induction is generalizing s with
  | nil => trivial
  | cons i is ih =>
    exact ⟨h s i List.mem_cons_self, ih fun s j hj => h s j (List.mem_cons_of_mem _ hj)⟩

theorem Steps.imp {Q : σ → ι → Prop} (h : Steps step P s is) (hpq : ∀ s i, P s i → Q s i) :
    Steps step Q s is := by
  induction is generalizing s with
  | nil => trivial
  | cons i is ih => exact ⟨hpq s i h.1, ih h.2⟩

theorem steps_and {Q : σ → ι → Prop} :
    Steps step (fun s i => P s i ∧ Q s i) s is ↔ Steps step P s is ∧ Steps step Q s is := by
  induction is generalizing s with
  | nil => simp
  | cons i is ih => simp [ih, and_and_and_comm]

/-- What every step that meets the condition keeps holds after every run of such steps. -/
theorem Steps.invariant (I : σ → Prop) (h : Steps step P s is)
    (hstep : ∀ s i, P s i → I s → I (step s i)) (hs : I s) : I (run step s is) := by
  induction is generalizing s with
  | nil => exact hs
  | cons i is ih => exact ih h.2 (hstep s i h.1 hs)

/-- What every step that meets the condition keeps holds before each step of such a run. -/
theorem Steps.with_invariant (I : σ → Prop) (h : Steps step P s is)
    (hstep : ∀ s i, P s i → I s → I (step s i)) (hs : I s) :
    Steps step (fun s i => I s ∧ P s i) s is := by
  induction is generalizing s with
  | nil => trivial
  | cons i is ih => exact ⟨⟨hs, h.1⟩, ih h.2 (hstep s i h.1 hs)⟩

/-- Two conditions that come to the same as long as they keep an invariant are met by the same
runs. -/
theorem steps_congr {Q : σ → ι → Prop} (I : σ → Prop) (hiff : ∀ s i, I s → (P s i ↔ Q s i))
    (hstep : ∀ s i, P s i → I s → I (step s i)) (hs : I s) :
    Steps step P s is ↔ Steps step Q s is := by
  induction is generalizing s with
  | nil => exact Iff.rfl
  | cons i is ih =>
    rw [steps_cons, steps_cons, ← hiff s i hs]
    exact and_congr_right fun hi => ih (hstep s i hi hs)

/-- What every step keeps holds after every run. -/
theorem run_invariant (I : σ → Prop) (hstep : ∀ s i, I s → I (step s i)) (hs : I s) :
    I (run step s is) :=
  (steps_of_forall (P := fun _ _ => True) fun _ _ _ => trivial).invariant I
    (fun s i _ => hstep s i) hs

/-- A machine that can always come nearer to its rest comes to rest. -/
theorem exists_run_rest (I rest : σ → Prop) (load : σ → Nat)
    (hstep : ∀ s, I s → rest s ∨ ∃ i, I (step s i) ∧ load (step s i) < load s) (hs : I s) :
    ∃ is, I (run step s is) ∧ rest (run step s is) := by
  induction hn : load s using Nat.strongRecOn generalizing s with
  | ind n ih =>
    obtain hrest | ⟨i, hi, hlt⟩ := hstep s hs
    · exact ⟨[], hs, hrest⟩
    · obtain ⟨is, hrun⟩ := ih (load (step s i)) (hn ▸ hlt) hi rfl
      exact ⟨i :: is, hrun⟩

/-- Where every step of a run is matched by a few steps of another machine, the run is matched by
all of these. -/
theorem Steps.simulates {τ κ : Type} {step' : τ → κ → τ} {t : τ} (R : σ → τ → Prop)
    (labels : ι → List κ) (h : Steps step P s is)
    (hstep : ∀ s t i, P s i → R s t → R (step s i) (run step' t (labels i))) (hs : R s t) :
    R (run step s is) (run step' t (is.flatMap labels)) := by
  induction is generalizing s t with
  | nil => exact hs
  | cons i is ih =>
    rw [List.flatMap_cons, run_append]
    exact ih h.2 (hstep s t i h.1 hs)

@[simp] theorem countSteps_nil [∀ s i, Decidable (P s i)] : countSteps step P s [] = 0 := rfl

@[simp] theorem countSteps_cons [∀ s i, Decidable (P s i)] :
    countSteps step P s (i :: is) =
      (if P s i then 1 else 0) + countSteps step P (step s i) is := rfl

theorem countSteps_append [∀ s i, Decidable (P s i)] :
    countSteps step P s (is ++ js) =
      countSteps step P s is + countSteps step P (run step s is) js := by
  induction is generalizing s with
  | nil => simp
  | cons i is ih => simp [ih, Nat.add_assoc]

end MeshNet.Library
