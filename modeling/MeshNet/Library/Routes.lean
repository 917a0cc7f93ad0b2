import Mathlib.Data.List.Nodup

/-!
# Routes by next hops

Every vertex may name a next one on the way to a destination. Where a rank goes down with every
hop, all ways lead to the destination, and none comes to a vertex twice.
-/

namespace MeshNet.Library

variable {V : Type} {next : V → Option V} {dest a b : V} {rank : V → Int} {p : List V}

/-- The vertices that one comes by on the way from a vertex to `dest`, with both ends. -/
inductive Leads (next : V → Option V) (dest : V) : V → List V → Prop
  | arrived : Leads next dest dest [dest]
  | hop {a b : V} {p : List V} (ha : a ≠ dest) (hnext : next a = some b)
      (h : Leads next dest b p) : Leads next dest a (a :: p)

/-- Every hop leads to the destination or to a vertex that knows a next one and is nearer to it. -/
structure Descends (next : V → Option V) (dest : V) (rank : V → Int) : Prop where
  pos : ∀ a b, next a = some b → 0 < rank a
  hop : ∀ a b, next a = some b → b = dest ∨ ∃ c, next b = some c ∧ rank b < rank a

/-- What the hops never leave holds at the destination. -/
theorem Leads.closed {P : V → Prop} (h : Leads next dest a p)
    (hstep : ∀ v w, P v → next v = some w → P w) (ha : P a) : P dest := by
  induction h with
  | arrived => exact ha
  | hop _ hnext _ ih => exact ih (hstep _ _ ha hnext)

/-- The vertices on the way are no farther away than its beginning. -/
theorem Descends.exists_leads_of_le (h : Descends next dest rank) {n : Nat} (hab : next a = some b)
    (hn : (rank a).toNat ≤ n) :
    ∃ p, Leads next dest a p ∧ p.Nodup ∧ ∀ v ∈ p, v = dest ∨ rank v ≤ rank a := by
  induction n generalizing a b with
  | zero => grind [h.pos a b hab]
  | succ n ih =>
    by_cases ha : a = dest
    · subst ha
      exact ⟨[a], .arrived, by simp, by simp⟩
    · obtain rfl | ⟨c, hbc, hlt⟩ := h.hop a b hab
      · exact ⟨[a, b], .hop ha hab .arrived, by simp [ha], by simp⟩
      · obtain ⟨p, hp, hnodup, hle⟩ := ih hbc (by have := h.pos a b hab; omega)
        have hfresh : a ∉ p := fun hmem => by
          obtain heq | hback := hle a hmem
          · exact ha heq
          · omega
        refine ⟨a :: p, .hop ha hab hp, List.nodup_cons.mpr ⟨hfresh, hnodup⟩, fun v hv => ?_⟩
        grind

/-- A vertex that knows a next one is led to the destination, and nowhere twice. -/
theorem Descends.exists_leads (h : Descends next dest rank) (ha : next a ≠ none) :
    ∃ p, Leads next dest a p ∧ p.Nodup := by
  obtain ⟨b, hab⟩ := Option.ne_none_iff_exists'.mp ha
  obtain ⟨p, hp, hnodup, -⟩ := h.exists_leads_of_le hab (Nat.le_refl _)
  exact ⟨p, hp, hnodup⟩

end MeshNet.Library
