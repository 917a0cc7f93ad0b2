import Mathlib.Data.List.Basic
import Mathlib.Logic.Function.Basic
import Mathlib.Tactic.Common

/-!
# Parties that talk over channels

From every sender a channel leads to every party. A channel hands its messages over in the order
in which they were put on it; a party that is handed one changes its state and puts others on the
channels that start at it. What concerns one topic only, of all that is known and under way, is
again a system of parties, in which nothing happens while messages about other topics are handed
over.
-/

namespace MeshNet.Library

variable {π ρ σ κ μ : Type} [DecidableEq π] [DecidableEq ρ]

structure Parties (π ρ σ μ : Type) where
  state : ρ → σ
  channel : π → ρ → List μ

/-- Put messages on the channels that start at `src`. -/
def post (src : π) (out : List (ρ × μ)) (channel : π → ρ → List μ) : π → ρ → List μ :=
  fun a b =>
    if a = src then channel a b ++ out.filterMap fun o => if o.1 = b then some o.2 else none
    else channel a b

/-- Take the first message off a channel. -/
def pull (src : π) (dst : ρ) (channel : π → ρ → List μ) : π → ρ → List μ :=
  fun a b => if a = src ∧ b = dst then (channel a b).tail else channel a b

/-- The messages that satisfy `p`. -/
def about (p : μ → Bool) (channel : π → ρ → List μ) : π → ρ → List μ :=
  fun a b => (channel a b).filter p

namespace Parties

variable (name : ρ → π) (react : ρ → π → σ → μ → σ × List (ρ × μ))

/-- The channel hands its first message over. -/
def deliver (s : Parties π ρ σ μ) (src : π) (dst : ρ) : Parties π ρ σ μ :=
  match s.channel src dst with
  | [] => s
  | m :: _ =>
    { state := Function.update s.state dst (react dst src (s.state dst) m).1
      channel := post (name dst) (react dst src (s.state dst) m).2 (pull src dst s.channel) }

/-- What the parties know and what is under way of a topic. -/
def view (look : σ → κ) (p : μ → Bool) (s : Parties π ρ σ μ) : Parties π ρ κ μ where
  state a := look (s.state a)
  channel := about p s.channel

end Parties

variable {src x : π} {dst b : ρ} {out : List (ρ × μ)} {channel : π → ρ → List μ} {m : μ}
  {ms : List μ} {p : μ → Bool}

/-! ## What is where -/

@[simp] theorem post_nil : post src [] channel = channel := by
  funext a b
  simp [post]

theorem mem_post : m ∈ post src out channel x b ↔ m ∈ channel x b ∨ x = src ∧ (b, m) ∈ out := by
  unfold post
  split
  · simp only [List.mem_append, List.mem_filterMap]
    grind
  · grind

theorem post_of_ne (h : x ≠ src) : post src out channel x b = channel x b := if_neg h

theorem post_self : post src out channel src b =
    channel src b ++ out.filterMap fun o => if o.1 = b then some o.2 else none := if_pos rfl

theorem post_singleton {d : ρ} : post src [(d, m)] channel x b =
    if x = src ∧ b = d then channel x b ++ [m] else channel x b := by
  unfold post
  by_cases hx : x = src
  · by_cases hb : b = d
    · simp [hx, hb]
    · simp [hx, hb, Ne.symm hb]
  · simp [hx]

/-- A message to each of several parties. -/
theorem post_each {ds : List ρ} (hds : ds.Nodup) (f : ρ → μ) :
    post src (ds.map fun d => (d, f d)) channel src b =
      channel src b ++ if b ∈ ds then [f b] else [] := by
  rw [post, if_pos rfl, List.filterMap_map]
  congr 1
  induction ds with
  | nil => rfl
  | cons d ds ih =>
    obtain ⟨hd, hds⟩ := List.nodup_cons.mp hds
    rw [List.filterMap_cons, ih hds]
    by_cases hb : d = b
    · subst hb
      simp [hd]
    · simp [hb, Ne.symm hb]

theorem pull_eq : pull src dst channel x b =
    if x = src ∧ b = dst then (channel x b).tail else channel x b := rfl

@[simp] theorem pull_self : pull src dst channel src dst = (channel src dst).tail :=
  if_pos ⟨rfl, rfl⟩

theorem pull_of_ne (h : ¬ (x = src ∧ b = dst)) : pull src dst channel x b = channel x b :=
  if_neg h

theorem mem_of_mem_pull (h : m ∈ pull src dst channel x b) : m ∈ channel x b := by
  unfold pull at h
  split at h
  · exact List.mem_of_mem_tail h
  · exact h

/-! ## One topic -/

theorem filter_filterMap_post (out : List (ρ × μ)) :
    (out.filterMap fun o => if o.1 = b then some o.2 else none).filter p =
      (out.filter fun o => p o.2).filterMap fun o => if o.1 = b then some o.2 else none := by
  induction out with
  | nil => rfl
  | cons o out ih => grind

theorem about_post : about p (post src out channel) =
    post src (out.filter fun o => p o.2) (about p channel) := by
  funext a b
  simp only [about, post]
  split
  · rw [List.filter_append, filter_filterMap_post]
  · rfl

theorem about_pull_pos (h : channel src dst = m :: ms) (hm : p m = true) :
    about p (pull src dst channel) = pull src dst (about p channel) := by
  funext a b
  simp only [about, pull]
  split
  · rename_i hhere
    rw [hhere.1, hhere.2, h, List.filter_cons_of_pos hm, List.tail_cons, List.tail_cons]
  · rfl

theorem about_pull_neg (h : channel src dst = m :: ms) (hm : p m = false) :
    about p (pull src dst channel) = about p channel := by
  funext a b
  simp only [about, pull]
  split
  · rename_i hhere
    rw [hhere.1, hhere.2, h, List.filter_cons_of_neg (by simp [hm]), List.tail_cons]
  · rfl

namespace Parties

variable {name : ρ → π} {react : ρ → π → σ → μ → σ × List (ρ × μ)} {s : Parties π ρ σ μ}
  {look : σ → κ}

theorem deliver_nil (h : s.channel src dst = []) : s.deliver name react src dst = s := by
  simp only [deliver, h]

theorem deliver_cons (h : s.channel src dst = m :: ms) :
    s.deliver name react src dst =
      { state := Function.update s.state dst (react dst src (s.state dst) m).1
        channel := post (name dst) (react dst src (s.state dst) m).2
          (pull src dst s.channel) } := by
  simp only [deliver, h]

theorem state_deliver (h : s.channel src dst = m :: ms) :
    (s.deliver name react src dst).state =
      Function.update s.state dst (react dst src (s.state dst) m).1 := by
  rw [deliver_cons h]

theorem channel_deliver (h : s.channel src dst = m :: ms) :
    (s.deliver name react src dst).channel =
      post (name dst) (react dst src (s.state dst) m).2 (pull src dst s.channel) := by
  rw [deliver_cons h]

/-- What is under way after a delivery was before, or the one who was handed the message has sent
it. -/
theorem mem_channel_deliver {m' : μ} (h : s.channel src dst = m :: ms)
    (hm : m' ∈ (s.deliver name react src dst).channel x b) :
    m' ∈ s.channel x b ∨ x = name dst ∧ (b, m') ∈ (react dst src (s.state dst) m).2 := by
  rw [channel_deliver h] at hm
  exact (mem_post.mp hm).imp_left mem_of_mem_pull

/-- How many messages of a kind a channel holds after a delivery. -/
theorem countP_deliver (p : μ → Bool) (h : s.channel src dst = m :: ms) :
    ((s.deliver name react src dst).channel x b).countP p +
        (if (x = src ∧ b = dst) ∧ p m = true then 1 else 0) =
      (s.channel x b).countP p + if x = name dst then
        ((react dst src (s.state dst) m).2.filterMap fun o =>
          if o.1 = b then some o.2 else none).countP p else 0 := by
  have hpull : (pull src dst s.channel x b).countP p +
      (if (x = src ∧ b = dst) ∧ p m = true then 1 else 0) = (s.channel x b).countP p := by
    by_cases hhere : x = src ∧ b = dst
    · obtain ⟨rfl, rfl⟩ := hhere
      rw [pull_self, h, List.tail_cons, List.countP_cons]
      by_cases hm : p m = true <;> simp [hm]
    · rw [pull_of_ne hhere, if_neg fun hm => hhere hm.1, Nat.add_zero]
  rw [channel_deliver h]
  by_cases hx : x = name dst
  · rw [if_pos hx, hx, post_self, List.countP_append, ← hx]
    omega
  · rw [if_neg hx, post_of_ne hx]
    omega

/-- A delivery changes the party that it is to and no other. -/
theorem forall_state_deliver (h : s.channel src dst = m :: ms) {P : ρ → σ → Prop}
    (hself : P dst (react dst src (s.state dst) m).1) (hother : ∀ a, P a (s.state a)) (a : ρ) :
    P a ((s.deliver name react src dst).state a) := by
  rw [state_deliver h]
  by_cases ha : a = dst
  · subst ha
    rwa [Function.update_self]
  · rw [Function.update_of_ne ha]
    exact hother a

/-- A message about something else, that causes only such, is of no concern to the topic. -/
theorem view_deliver_of_neg (h : s.channel src dst = m :: ms) (hm : p m = false)
    (hout : ∀ o ∈ (react dst src (s.state dst) m).2, p o.2 = false)
    (hlook : look (react dst src (s.state dst) m).1 = look (s.state dst)) :
    (s.deliver name react src dst).view look p = s.view look p := by
  rw [view, view, channel_deliver h, state_deliver h, about_post, about_pull_neg h hm,
    List.filter_eq_nil_iff.mpr fun o ho => by simp [hout o ho], post_nil]
  congr 1
  funext a
  by_cases ha : a = dst
  · rw [ha, Function.update_self, hlook]
  · rw [Function.update_of_ne ha]

/-- A message about the topic, that causes only such, is delivered within the topic. -/
theorem view_deliver_of_pos (h : s.channel src dst = m :: ms) (hm : p m = true)
    (hout : ∀ o ∈ (react dst src (s.state dst) m).2, p o.2 = true) :
    (s.deliver name react src dst).view look p =
      { state := Function.update (s.view look p).state dst
          (look (react dst src (s.state dst) m).1)
        channel := post (name dst) (react dst src (s.state dst) m).2
          (pull src dst (s.view look p).channel) } := by
  rw [view, channel_deliver h, state_deliver h, about_post, about_pull_pos h hm,
    List.filter_eq_self.mpr hout]
  congr 1
  funext a
  by_cases ha : a = dst
  · rw [ha, Function.update_self, Function.update_self]
  · rw [Function.update_of_ne ha, Function.update_of_ne ha]
    rfl

omit [DecidableEq π] [DecidableEq ρ] in
/-- The first message of a topic is the first of all within the topic. -/
theorem view_channel_cons (h : s.channel src dst = m :: ms) (hm : p m = true) :
    (s.view look p).channel src dst = m :: ms.filter p := by
  change (s.channel src dst).filter p = _
  rw [h, List.filter_cons_of_pos hm]

end Parties

end MeshNet.Library
