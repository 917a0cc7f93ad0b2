import Mathlib.Data.List.Induction
import MeshNet.Mesh.Endings
import MeshNet.Mesh.Frames

/-!
# Nothing is made up

Whatever fails and in whatever order the connections deliver, an app is given nothing but what a
client has asked for, under the number that the server gave to it, and opens the text that the
client sent.
-/

namespace MeshNet
open Library
open Mesh (asks)

namespace Mesh

/-- Clients ask for messages that have a text and are for apps that there are. Everything may
fail. -/
def Call.Meant : Call → Prop
  | .client req _ packet _ =>
    req.CarriesMessage ∧ 1 ≤ packet.appPayload.messageLen.toNat ∧
      packet.appPayload.messageLen.toNat < appMessageLen ∧ packet.appPayload.Addressed
  | .deliver .. => True

/-- A client has asked for the message, which the server has given the number `k`. -/
def Asked (id : UInt16) (is : List Call) (packet : NodePacket) (k : UInt16) : Prop :=
  ∃ before req fd env after, is = before ++ .client req fd packet env :: after ∧
    k = id + UInt16.ofNat (asks before)

end Mesh

variable {z : Zlib} {m : Mesh} {id k : UInt16} {is : List Mesh.Call} {i : Mesh.Call}
  {packet : NodePacket} {orig : AppPayload} {bytes : List UInt8} {req : Request} {fd : Int}
  {env : Env} {senv : ServerEnv} {src dst : Peer} {pids : UInt8 → Int32} {fds : UInt8 ↪ Int}

/-! ## What was asked for -/

theorem Mesh.Asked.append (h : Mesh.Asked id is packet k) (js : List Mesh.Call) :
    Mesh.Asked id (is ++ js) packet k := by
  obtain ⟨before, req, fd, env, after, rfl, hk⟩ := h
  exact ⟨before, req, fd, env, after ++ js, by rw [List.append_assoc]; rfl, hk⟩

theorem asks_append (is js : List Mesh.Call) : asks (is ++ js) = asks is + asks js :=
  List.countP_append

theorem asks_client (req : Request) (fd : Int) (packet : NodePacket) (env : ServerEnv)
    (is : List Mesh.Call) : asks (.client req fd packet env :: is) = asks is + 1 :=
  List.countP_cons_of_pos rfl

/-- Until the numbers wrap there is one message of each number. -/
theorem Mesh.Asked.unique {before after : List Mesh.Call} {packet' : NodePacket}
    (h : Mesh.Asked id (before ++ .client req fd packet senv :: after) packet'
      (id + UInt16.ofNat (asks before))) (hfew : asks before + asks after < 65536) :
    packet' = packet := by
  obtain ⟨before', req', fd', env, after', heq, hk⟩ := h
  have hall := congrArg asks heq
  rw [asks_append, asks_append, asks_client, asks_client] at hall
  obtain ⟨l, rfl, hl⟩ | ⟨l, rfl, hl⟩ := List.append_eq_append_iff.mp heq
  · cases l with
    | nil =>
      obtain ⟨hcall, -⟩ := List.cons.inj hl
      injection hcall with _ _ hsame
      exact hsame.symm
    | cons i l =>
      obtain ⟨rfl, -⟩ := List.cons.inj hl
      rw [asks_append, asks_client] at hk hall
      exact absurd hk.symm (issued_ne (by omega) (by omega))
  · cases l with
    | nil =>
      obtain ⟨hcall, -⟩ := List.cons.inj hl
      injection hcall
    | cons i l =>
      obtain ⟨rfl, -⟩ := List.cons.inj hl
      rw [asks_append, asks_client] at hk hfew
      exact absurd hk (issued_ne (by omega) (by omega))

/-! ## Frames are not from clients -/

theorem Outgoing.onWire {a : AppPayload} {port : UInt16} (h : Outgoing env a port bytes)
    (hcarries : orig.Carries z a) : OnWire z orig bytes := by
  cases h with
  | notify notify => exact .notify notify _
  | packet _ hlayout hp => exact .packet hlayout (hp ▸ hcarries) _
  | contest _ hlayout hc => exact .contest hlayout (hc ▸ hcarries) _

end MeshNet
