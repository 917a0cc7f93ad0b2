import Mathlib.Data.List.Basic
import Mathlib.Tactic.Common

/-!
# Scanning a command line

A loop over the arguments of a program that, at an option, reads the argument behind it. It may
find no argument there, or one that it does not accept, and is then left. What such a loop comes to
is told by the options and their values, the arguments that stand behind them.
-/

namespace MeshNet.Library

variable {ω σ α : Type}

/-- Why a loop is left before its end: there is no argument behind an option, or none that it
accepts. -/
inductive Stop where
  | missing | refused
  deriving DecidableEq, Repr

/-- The loop, whose body sees an argument and the one behind it. -/
def scan (body : ω → Option ω → σ → Except (Stop × σ) σ) : List ω → σ → Except (Stop × σ) σ
  | [], s => .ok s
  | arg :: rest, s =>
    match body arg rest.head? s with
    | .ok s => scan body rest s
    | .error stop => .error stop

/-- Which arguments are options, and what an option does with a value. -/
structure Options (ω σ : Type) where
  takes : ω → Bool
  parse : ω → ω → Option (σ → σ)

/-- The arguments behind those that `p` selects. -/
def values (p : ω → Bool) (args : List ω) : List ω :=
  ((args.zip args.tail).filter fun r => p r.1).map Prod.snd

theorem mem_values {p : ω → Bool} {args : List ω} {value : ω} :
    value ∈ values p args ↔ ∃ arg, p arg = true ∧ (arg, value) ∈ args.zip args.tail := by
  simp [values, and_comm]

namespace Options

variable (o : Options ω σ)

def body (arg : ω) (next : Option ω) (s : σ) : Except (Stop × σ) σ :=
  if o.takes arg then
    match next with
    | none => .error (.missing, s)
    | some value =>
      match o.parse arg value with
      | none => .error (.refused, s)
      | some f => .ok (f s)
  else .ok s

/-- The options with their values. -/
def reads (args : List ω) : List (ω × ω) := (args.zip args.tail).filter fun r => o.takes r.1

/-- The last argument is an option. -/
def Dangling (args : List ω) : Prop := ∃ last ∈ args.getLast?, o.takes last = true

/-- Some value is not accepted. -/
def Refused (args : List ω) : Prop := ∃ r ∈ o.reads args, o.parse r.1 r.2 = none

/-- The state once all values are read. -/
def final (s : σ) (rs : List (ω × ω)) : σ :=
  rs.foldl (fun s r => ((o.parse r.1 r.2).getD id) s) s

variable {o} {arg next : ω} {rest args : List ω} {s : σ} {rs : List (ω × ω)}

/-! ## Options and values -/

theorem reads_cons :
    o.reads (arg :: next :: rest) =
      if o.takes arg then (arg, next) :: o.reads (next :: rest) else o.reads (next :: rest) :=
  List.filter_cons

theorem mem_reads {r : ω × ω} : r ∈ o.reads args ↔ o.takes r.1 = true ∧ r ∈ args.zip args.tail := by
  simp [reads, and_comm]

theorem dangling_cons : o.Dangling (arg :: next :: rest) ↔ o.Dangling (next :: rest) := by
  simp [Dangling]

theorem refused_cons :
    o.Refused (arg :: next :: rest) ↔
      (o.takes arg = true ∧ o.parse arg next = none) ∨ o.Refused (next :: rest) := by
  unfold Refused
  rw [reads_cons]
  split <;> simp_all

/-! ## The loop -/

theorem scan_refused (h : o.Refused args) : ∃ t, scan o.body args s = .error (.refused, t) := by
  induction args generalizing s with
  | nil => simp [Refused, reads] at h
  | cons arg rest ih =>
    cases rest with
    | nil => simp [Refused, reads] at h
    | cons next rest =>
      have hbody : o.body arg (some next) s = .error (.refused, s) ∨
          (∃ t, o.body arg (some next) s = .ok t) ∧ o.Refused (next :: rest) := by
        have := refused_cons.mp h
        unfold body
        grind
      rw [scan, List.head?_cons]
      rcases hbody with hbody | ⟨⟨t, hbody⟩, hrest⟩
      · exact ⟨s, by rw [hbody]⟩
      · rw [hbody]
        exact ih hrest

/-- Where every value is accepted, the loop fails only for want of one. -/
theorem scan_accepted (h : ¬ o.Refused args) :
    (o.Dangling args → ∃ t, scan o.body args s = .error (.missing, t)) ∧
      (¬ o.Dangling args → scan o.body args s = .ok (o.final s (o.reads args))) := by
  induction args generalizing s with
  | nil => simp [Dangling, scan, reads, final]
  | cons arg rest ih =>
    cases rest with
    | nil =>
      rw [scan, List.head?_nil, body]
      by_cases htakes : o.takes arg = true <;> simp [Dangling, htakes, scan, reads, final]
    | cons next rest =>
      rw [refused_cons, not_or] at h
      rw [scan, List.head?_cons, body, dangling_cons, reads_cons]
      by_cases htakes : o.takes arg = true
      · obtain ⟨f, hf⟩ : ∃ f, o.parse arg next = some f := by
          apply Option.ne_none_iff_exists'.mp
          intro hnone
          exact h.1 ⟨htakes, hnone⟩
        have hfinal : ∀ rs, o.final s ((arg, next) :: rs) = o.final (f s) rs := by
          intro rs
          simp [final, hf]
        simp only [htakes, if_true, hf, hfinal]
        exact ih h.2
      · simp only [htakes, if_false, Bool.false_eq_true]
        exact ih h.2

/-- The loop comes to an end, or is left for a value that is not accepted, or else for want of
one. -/
theorem scan_cases (o : Options ω σ) (args : List ω) (s : σ) :
    (o.Refused args ∧ ∃ t, scan o.body args s = .error (.refused, t)) ∨
    (¬ o.Refused args ∧ o.Dangling args ∧ ∃ t, scan o.body args s = .error (.missing, t)) ∨
    (¬ o.Refused args ∧ ¬ o.Dangling args ∧
      scan o.body args s = .ok (o.final s (o.reads args))) := by
  by_cases hrefused : o.Refused args
  · exact .inl ⟨hrefused, scan_refused hrefused⟩
  · obtain ⟨hmissing, hok⟩ := scan_accepted (s := s) hrefused
    by_cases hlast : o.Dangling args
    · exact .inr (.inl ⟨hrefused, hlast, hmissing hlast⟩)
    · exact .inr (.inr ⟨hrefused, hlast, hok hlast⟩)

/-- What every accepted value keeps holds where the loop is left. -/
theorem scan_invariant (I : σ → Prop) {stop : Stop} {t : σ}
    (hstep : ∀ arg value f s, o.parse arg value = some f → I s → I (f s)) (hs : I s)
    (h : scan o.body args s = .error (stop, t)) : I t := by
  induction args generalizing s with
  | nil => cases h
  | cons arg rest ih =>
    have hbody : (∃ u, o.body arg rest.head? s = .ok u ∧ I u) ∨
        ∃ stop, o.body arg rest.head? s = .error (stop, s) := by
      unfold body
      grind
    rw [scan] at h
    rcases hbody with ⟨u, hu, hkeeps⟩ | ⟨stop, hstop⟩
    · rw [hu] at h
      exact ih hkeeps h
    · rw [hstop] at h
      cases h
      exact hs

/-- A part of the state that only the options of `p` change is what their values make of it. -/
theorem proj_final (π : σ → α) (p : ω → Bool) (k : α → ω → α)
    (htakes : ∀ arg, p arg = true → o.takes arg = true)
    (hset : ∀ arg value s, o.takes arg = true →
      π ((o.parse arg value).getD id s) = if p arg then k (π s) value else π s) :
    π (o.final s (o.reads args)) = (values p args).foldl k (π s) := by
  unfold reads values
  induction args.zip args.tail generalizing s with
  | nil => rfl
  | cons r rs ih =>
    rw [List.filter_cons, List.filter_cons]
    by_cases hr : o.takes r.1 = true
    · have hhead := hset r.1 r.2 s hr
      have hrest := ih (s := (o.parse r.1 r.2).getD id s)
      rw [if_pos hr, final, List.foldl_cons]
      change π (o.final ((o.parse r.1 r.2).getD id s) _) = _
      rw [hrest, hhead]
      split_ifs <;> rfl
    · have hp : ¬ p r.1 = true := fun hp => hr (htakes r.1 hp)
      rw [if_neg hr, if_neg hp, ih]

end Options

end MeshNet.Library
