import MeshNet.Node.Reset

/-!
# Enough slots

A node that only ever talks to the server and to its neighbours has a slot for each of them: no
port stands in two slots, so that there is a free one as long as some port is in none.
-/

namespace MeshNet
open Library

/-- Live slots hold ports out of `ports`, each of them once. -/
structure Link.Slotted (ports : List UInt16) (l : Link) : Prop where
  wellFormed : l.WellFormed
  known : ∀ c ∈ l.connections, c.isLive = true → c.port ∈ ports
  once : ∀ (i j : Nat) (c d : Conn), l.connections[i]? = some c → l.connections[j]? = some d →
    c.isLive = true → d.isLive = true → c.port = d.port → i = j

namespace Link

variable {ports : List UInt16} {net : Net} {l l' : Link} {port : UInt16} {bytes : List UInt8}
  {S : UInt16 → List UInt8 → Prop} {A : AppPayload → Bool → AppPayload → Prop}

theorem slotted_initial (ports : List UInt16) : initial.Slotted ports := by
  have hfree : ∀ c ∈ initial.connections, c = .free := fun _ hc => List.eq_of_mem_replicate hc
  refine ⟨fun c hc => .inl (hfree c hc), fun c hc hlive => ?_, fun i j c d hc _ hlive => ?_⟩
  · rw [hfree c hc] at hlive
    cases hlive
  · rw [hfree c (List.mem_of_getElem? hc)] at hlive
    cases hlive

theorem Slotted.congr (h : l.Slotted ports) (heq : l'.connections = l.connections) :
    l'.Slotted ports := by
  refine ⟨fun c hc => h.wellFormed c (heq ▸ hc), fun c hc => h.known c (heq ▸ hc), ?_⟩
  rw [heq]
  exact h.once

theorem slotted_push (h : l.Slotted ports) (e : Event) : (l.push e).Slotted ports := h.congr rfl

/-- A port that no slot holds is not that of a live slot. -/
theorem port_ne_of_closed (hclosed : l.isOpen port = false) {c : Conn} (hc : c ∈ l.connections)
    (hlive : c.isLive = true) : c.port ≠ port := by
  rintro rfl
  have hno := List.any_eq_false.mp hclosed c hc
  simp [hlive] at hno

theorem slotted_getConnAndSend (h : l.Slotted ports) (hport : port ∈ ports)
    (hmax : port.toNat < 65535) (bytes : List UInt8) :
    (l.getConnAndSend net port bytes).2.Slotted ports := by
  obtain ⟨-, -, heq⟩ | ⟨hclosed, i, c, hi, -, hfd, heq⟩ | ⟨-, heq, -⟩ := getConn_cases net l port
  · exact h.congr (by simp [getConnAndSend, heq])
  · have hset : (l.getConnAndSend net port bytes).2.connections =
        l.connections.set i ⟨net.connect l.trace.length port, port⟩ := by
      simp [getConnAndSend, heq, setConn]
    refine ⟨wellFormed_getConnAndSend bytes hmax h.wellFormed, fun d hd hlive => ?_,
      fun j k d d' hd hd' hlive hlive' hsame => ?_⟩
    · rw [hset] at hd
      obtain hd | rfl := List.mem_or_eq_of_mem_set hd
      · exact h.known d hd hlive
      · exact hport
    · rw [hset, List.getElem?_set] at hd hd'
      -- Only the new connection has the port.
      by_cases hj : i = j <;> by_cases hk : i = k
      · exact hj.symm.trans hk
      · rw [if_pos hj] at hd
        rw [if_neg hk] at hd'
        split at hd
        · cases hd
          exact absurd hsame.symm
            (port_ne_of_closed hclosed (List.mem_of_getElem? hd') hlive')
        · cases hd
      · rw [if_neg hj] at hd
        rw [if_pos hk] at hd'
        split at hd'
        · cases hd'
          exact absurd hsame (port_ne_of_closed hclosed (List.mem_of_getElem? hd) hlive)
        · cases hd'
      · rw [if_neg hj] at hd
        rw [if_neg hk] at hd'
        exact h.once j k d d' hd hd' hlive hlive' hsame
  · exact h.congr (by simp [getConnAndSend, heq])

theorem slotted_resetConnections (h : l.Slotted ports) : l.resetConnections.Slotted ports := by
  have hlive : ∀ c : Conn, (if c.port ≠ serverPort ∧ c.fd > 0 ∧ c.port < 65535 then .free
      else c : Conn).isLive = true → (if c.port ≠ serverPort ∧ c.fd > 0 ∧ c.port < 65535 then .free
      else c : Conn) = c := by
    intro c hlive
    split at hlive
    · cases hlive
    · rename_i hkept
      rw [if_neg hkept]
  refine ⟨wellFormed_resetConnections h.wellFormed, fun c hc hc' => ?_,
    fun i j c d hc hd hc' hd' hsame => ?_⟩
  · obtain ⟨c₀, hmem, rfl⟩ := List.mem_map.mp hc
    have heq := hlive c₀ hc'
    rw [heq] at hc' ⊢
    exact h.known c₀ hmem hc'
  · simp only [resetConnections, List.getElem?_map, Option.map_eq_some_iff] at hc hd
    obtain ⟨c₀, hi, rfl⟩ := hc
    obtain ⟨d₀, hj, rfl⟩ := hd
    have hceq := hlive c₀ hc'
    have hdeq := hlive d₀ hd'
    rw [hceq] at hc' hsame
    rw [hdeq] at hd' hsame
    exact h.once i j c₀ d₀ hi hj hc' hd' hsame

/-- What is sent to known ports leaves the slots in order. -/
theorem Slotted.emits (hl : l.Slotted ports) (h : Emits net S A l l')
    (hS : ∀ port bytes, S port bytes → port ∈ ports ∧ port.toNat < 65535) : l'.Slotted ports :=
  h.invariant (fun _ port bytes hs hl =>
    slotted_getConnAndSend hl (hS port bytes hs).1 (hS port bytes hs).2 bytes)
    (fun _ e hl => slotted_push hl e) hl

end Link

end MeshNet
