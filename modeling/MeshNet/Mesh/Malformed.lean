import MeshNet.Format.Stream
import MeshNet.Node.Listener
import MeshNet.Server.Replies

/-!
# Malformed frames

The listeners of the server and of the nodes reject a request they do not know. Before that
`format_parse` has reported it as not implemented, which raises `SIGTERM`; and a length byte of 0
is taken for one of 256.
-/

namespace MeshNet
open Library

/-- The byte is the code of no request. -/
def UnknownRequest (req : UInt8) : Prop := (Enumeration.values (ε := Request)).length ≤ req.toNat

/-- No frame is that short, or what it asks for is no request. -/
def Malformed (msgLen : UInt8) (rest : List UInt8) : Prop :=
  msgLen.toNat < msgBaseLen ∨ ∃ req ∈ rest.head?, UnknownRequest req

/-- A listener: the senders whose requests it parses, and what it makes of a request. -/
structure Listener (σ : Type) where
  parses : RequestSender → Bool
  heap : Message
  stack : Nat → UInt8
  handle : σ → Incoming → Bool × σ
  /-- What `handle_request` returns for a result of the listener. -/
  keeps : Bool → Bool

/-- All that can be moved is moved at once. -/
def Pieces.whole : Pieces := ⟨fun _ m => m, fun _ _ h => h, fun _ m => Nat.le_refl m⟩

def Server.listener (connFd : Int) (env : ServerEnv) : Listener Server where
  parses
    | .client | .node => true
    | _ => false
  heap := env.heap
  stack := env.stack
  handle s incoming := s.listenerHandle env incoming connFd
  keeps := id

def nodeListener (z : Zlib) (env : Env) : Listener Node where
  parses
    | .server | .node => true
    | _ => false
  heap := env.heap
  stack := env.stack
  handle n incoming := nodeListenerHandle z env n incoming.sender incoming.parsed
  keeps _ := true

/-- A connection that is served, with the state of the process. -/
structure Session (σ : Type) where
  state : σ
  inbound : Inbound
  isOpen : Bool

namespace Listener

variable {σ : Type} (l : Listener σ) (pieces : Pieces) (s : σ) (c : Inbound)

def answer (s : σ) (body : List UInt8) : Bool × σ := l.handle s (parseBody l.heap l.stack body)

/-- One round of `serving_poll` on a connection, which is closed when `handle_request` fails. -/
def serve (t : Session σ) : Session σ :=
  if t.isOpen then
    let r := handleRequest pieces
      (fun s body => (l.keeps (l.answer s body).1, (l.answer s body).2)) t.state t.inbound
    ⟨r.2.1, r.2.2, r.1⟩
  else t

/-- The sender is one whose requests are parsed. -/
def Parses (sender : Packed RequestSender) : Prop :=
  ∃ known, sender = .known known ∧ l.parses known = true

/-- `handle_request` comes to `die_`, which raises `SIGTERM`. -/
def Dies : Prop :=
  ∃ body ∈ (readFrame pieces c).1, l.Parses (parseBody l.heap l.stack body).sender ∧
    (parseBody l.heap l.stack body).parsed.died = true

/-- The process goes on, and a malformed frame is rejected with no more than its own bytes. -/
structure Harmless : Prop where
  survives : ¬ l.Dies pieces c
  rejects : ∀ msgLen rest, c.bytes = msgLen :: rest → Malformed msgLen rest →
    (handleRequest pieces l.answer s c).1 = false ∧ (handleRequest pieces l.answer s c).2.1 = s ∧
      c.bytes.length ≤ (readFrame pieces c).2.bytes.length + max 1 msgLen.toNat

/-- A length byte of 0 has nothing behind it, and a whole frame that is parsed has a request. -/
structure Orderly : Prop where
  zero : ∀ rest, c.bytes = 0 :: rest → rest = []
  known : ∀ msgLen req sender rest, c.bytes = msgLen :: req :: sender :: rest →
    msgBaseLen ≤ msgLen.toNat → msgLen.toNat ≤ rest.length + msgBaseLen →
    l.Parses (.ofByte sender) → ¬ UnknownRequest req

variable {l pieces s c} {heap : Message} {stack : Nat → UInt8}

theorem died_formatParse (heap : Message) (mem : Nat → UInt8) (w : Walk) :
    (formatParse heap mem w).1.died = true ↔ UnknownRequest (mem w.pos) := by
  unfold formatParse
  simp only [Reader.bind_apply, Reader.map_apply, Reader.byte_apply]
  have hbyte : (Packed.ofByte (mem w.pos) : Packed Request).toByte = mem w.pos :=
    Packed.toByte_ofByte _
  cases hcmd : (Packed.ofByte (mem w.pos) : Packed Request) with
  | known e =>
    have hlt : ¬ UnknownRequest (mem w.pos) := by
      rw [← hbyte, hcmd, UnknownRequest, Nat.not_le]
      exact (List.getElem?_eq_some_iff.mp (Enumeration.listed e)).1
    cases e <;> simp [hlt]
  | other code outside =>
    rw [hcmd] at hbyte
    simp only [Reader.pure_apply, true_iff]
    exact hbyte ▸ outside

/-- The body of a frame, where it is parsed: a request and a sender come first. -/
theorem dies_cons {req sender : UInt8} {rest : List UInt8}
    (h : (readFrame pieces c).1 = some (req :: sender :: rest)) :
    l.Dies pieces c ↔ l.Parses (.ofByte sender) ∧ UnknownRequest req := by
  unfold Dies
  rw [h]
  have hdied := died_formatParse l.heap (received (req :: sender :: rest) l.stack) {}
  exact ⟨fun ⟨body, hbody, hparses, hd⟩ => by cases hbody; exact ⟨hparses, hdied.mp hd⟩,
    fun ⟨hparses, hunknown⟩ => ⟨_, rfl, hparses, hdied.mpr hunknown⟩⟩

theorem not_dies_of_none (h : (readFrame pieces c).1 = none) : ¬ l.Dies pieces c := by
  rintro ⟨body, hbody, -⟩
  rw [h] at hbody
  cases hbody

theorem toNat_sub_one {n : UInt8} (h : n ≠ 0) : (n - 1).toNat = n.toNat - 1 := by
  have hpos : n.toNat ≠ 0 := fun hzero => h (UInt8.toNat_inj.mp hzero)
  have hle : (1 : UInt8) ≤ n := by
    rw [UInt8.le_iff_toNat_le]
    exact Nat.pos_of_ne_zero hpos
  exact UInt8.toNat_sub_of_le _ _ hle

/-- Which frames are passed on: whole ones with a request and a sender. -/
theorem readFrame_eq_some {msgLen : UInt8} {rest body : List UInt8} (hlen : msgLen ≠ 0)
    (h : c.bytes = msgLen :: rest) (hread : (readFrame pieces c).1 = some body) :
    msgBaseLen ≤ msgLen.toNat ∧ ∃ req sender after, rest = req :: sender :: after ∧
      msgLen.toNat ≤ after.length + msgBaseLen ∧
        body = req :: sender :: after.take (msgLen.toNat - msgBaseLen) := by
  rw [(readFrame_cons pieces h).1, toNat_sub_one hlen] at hread
  split at hread
  · rename_i hwhole
    obtain ⟨hone, hle⟩ := hwhole
    match rest, hle, hread with
    | [], hle, _ | [_], hle, _ =>
      simp only [List.length_nil, List.length_singleton] at hle
      omega
    | req :: sender :: after, hle, hread =>
      simp only [List.length_cons, msgBaseLen] at hle ⊢
      obtain ⟨k, hk⟩ : ∃ k, msgLen.toNat - 1 = k + 2 := ⟨msgLen.toNat - 3, by omega⟩
      have hsub : msgLen.toNat - (1 + 1 + 1) = k := by omega
      rw [hk, List.take_succ_cons, List.take_succ_cons] at hread
      rw [hsub]
      exact ⟨by omega, req, sender, after, rfl, by omega, (Option.some.inj hread).symm⟩
  · cases hread

theorem readFrame_base {msgLen req sender : UInt8} {after : List UInt8}
    (h : c.bytes = msgLen :: req :: sender :: after) (hbase : msgBaseLen ≤ msgLen.toNat)
    (hwhole : msgLen.toNat ≤ after.length + msgBaseLen) :
    (readFrame pieces c).1 =
      some (req :: sender :: after.take (msgLen.toNat - msgBaseLen)) := by
  have hlen : msgLen ≠ 0 := by
    rintro rfl
    exact absurd hbase (by decide)
  simp only [msgBaseLen] at hbase hwhole ⊢
  obtain ⟨k, hk⟩ : ∃ k, msgLen.toNat - 1 = k + 2 := ⟨msgLen.toNat - 3, by omega⟩
  have hsub : msgLen.toNat - (1 + 1 + 1) = k := by omega
  rw [(readFrame_cons pieces h).1, toNat_sub_one hlen, hk, hsub, if_pos ⟨by omega, by simp; omega⟩,
    List.take_succ_cons, List.take_succ_cons]

theorem harmless_iff
    (hrejects : ∀ s incoming, ¬ l.Parses incoming.sender → l.handle s incoming = (false, s)) :
    l.Harmless pieces s c ↔ l.Orderly c := by
  refine ⟨fun h => ⟨fun rest hbytes => ?_, fun msgLen req sender rest hbytes hbase hwhole hparses
    hunknown => ?_⟩, fun h => ⟨?_, fun msgLen rest hbytes hmalformed => ?_⟩⟩
  · obtain ⟨-, -, hlength⟩ := h.rejects 0 rest hbytes (.inl (by decide))
    rw [(readFrame_cons pieces hbytes).2, hbytes, List.length_drop, List.length_cons] at hlength
    have hall : (0 - 1 : UInt8).toNat = 255 := rfl
    have hmax : max 1 (0 : UInt8).toNat = 1 := rfl
    rw [hall, hmax] at hlength
    exact List.length_eq_zero_iff.mp (by omega)
  · exact h.survives ((dies_cons (readFrame_base hbytes hbase hwhole)).mpr ⟨hparses, hunknown⟩)
  · cases hbytes : c.bytes with
    | nil => exact not_dies_of_none (readFrame_nil pieces hbytes).1
    | cons msgLen rest =>
      by_cases hlen : msgLen = 0
      · subst hlen
        have hrest := h.zero rest hbytes
        subst hrest
        exact not_dies_of_none (readFrame_cons pieces hbytes).1
      · cases hread : (readFrame pieces c).1 with
        | none => exact not_dies_of_none hread
        | some body =>
          obtain ⟨hbase, req, sender, after, rfl, hwhole, rfl⟩ :=
            readFrame_eq_some hlen hbytes hread
          rw [dies_cons hread]
          rintro ⟨hparses, hunknown⟩
          exact h.known msgLen req sender after hbytes hbase hwhole hparses hunknown
  · by_cases hlen : msgLen = 0
    · subst hlen
      have hrest := h.zero rest hbytes
      subst hrest
      obtain ⟨hread, hafter⟩ := readFrame_cons pieces hbytes
      replace hread : (readFrame pieces c).1 = none := hread
      rw [handleRequest_none hread, hbytes]
      exact ⟨rfl, rfl, Nat.le_add_left _ _⟩
    · have hpos : msgLen.toNat ≠ 0 := fun hzero => hlen (UInt8.toNat_inj.mp hzero)
      have hlength : c.bytes.length ≤
          (readFrame pieces c).2.bytes.length + max 1 msgLen.toNat := by
        rw [(readFrame_cons pieces hbytes).2, hbytes, List.length_drop, toNat_sub_one hlen,
          List.length_cons]
        omega
      cases hread : (readFrame pieces c).1 with
      | none =>
        rw [handleRequest_none hread]
        exact ⟨rfl, rfl, hlength⟩
      | some body =>
        obtain ⟨hbase, req, sender, after, rfl, hwhole, rfl⟩ :=
          readFrame_eq_some hlen hbytes hread
        have hunknown : UnknownRequest req := by
          obtain hshort | ⟨req', hreq, hunknown⟩ := hmalformed
          · exact absurd hbase (Nat.not_le.mpr hshort)
          · cases hreq
            exact hunknown
        have hunparsed : ¬ l.Parses (.ofByte sender) := fun hparses =>
          h.known msgLen req sender after hbytes hbase hwhole hparses hunknown
        rw [handleRequest_some hread, answer, hrejects s _ hunparsed]
        exact ⟨rfl, rfl, hlength⟩

end Listener

theorem Server.listener_rejects (connFd : Int) (env : ServerEnv) (s : Server) (incoming : Incoming)
    (h : ¬ (Server.listener connFd env).Parses incoming.sender) :
    (Server.listener connFd env).handle s incoming = (false, s) := by
  change s.listenerHandle env incoming connFd = _
  unfold Server.listenerHandle
  split
  · rename_i hsender
    exact absurd ⟨_, hsender, rfl⟩ h
  · rename_i hsender
    exact absurd ⟨_, hsender, rfl⟩ h
  · rfl

theorem nodeListener_rejects (z : Zlib) (env : Env) (n : Node) (incoming : Incoming)
    (h : ¬ (nodeListener z env).Parses incoming.sender) :
    (nodeListener z env).handle n incoming = (false, n) := by
  change nodeListenerHandle z env n incoming.sender incoming.parsed = _
  unfold nodeListenerHandle
  split
  · rename_i hsender
    exact absurd ⟨_, hsender, rfl⟩ h
  · rename_i hsender
    exact absurd ⟨_, hsender, rfl⟩ h
  · rfl

/-- A connection does no harm to the server or to a node, as long as it is served, exactly when
its frames are orderly. -/
theorem harmless_run_iff (pieces : Pieces) :
    (∀ (connFd : Int) (t : Session Server) (envs : List ServerEnv),
      Steps (fun t env => (Server.listener connFd env).serve pieces t) (fun t env =>
          t.isOpen = true → (Server.listener connFd env).Harmless pieces t.state t.inbound) t envs ↔
        Steps (fun t env => (Server.listener connFd env).serve pieces t) (fun t env =>
          t.isOpen = true → (Server.listener connFd env).Orderly t.inbound) t envs) ∧
    ∀ (z : Zlib) (t : Session Node) (envs : List Env),
      Steps (fun t env => (nodeListener z env).serve pieces t) (fun t env =>
          t.isOpen = true → (nodeListener z env).Harmless pieces t.state t.inbound) t envs ↔
        Steps (fun t env => (nodeListener z env).serve pieces t) (fun t env =>
          t.isOpen = true → (nodeListener z env).Orderly t.inbound) t envs := by
  refine ⟨fun connFd t envs => ?_, fun z t envs => ?_⟩
  · have hiff : ∀ (t : Session Server) env, (Server.listener connFd env).Harmless pieces t.state
        t.inbound ↔ (Server.listener connFd env).Orderly t.inbound :=
      fun t env => Listener.harmless_iff (Server.listener_rejects connFd env)
    exact ⟨fun h => h.imp fun t env hopen ho => (hiff t env).mp (hopen ho),
      fun h => h.imp fun t env hopen ho => (hiff t env).mpr (hopen ho)⟩
  · have hiff : ∀ (t : Session Node) env, (nodeListener z env).Harmless pieces t.state t.inbound ↔
        (nodeListener z env).Orderly t.inbound :=
      fun t env => Listener.harmless_iff (nodeListener_rejects z env)
    exact ⟨fun h => h.imp fun t env hopen ho => (hiff t env).mp (hopen ho),
      fun h => h.imp fun t env hopen ho => (hiff t env).mpr (hopen ho)⟩

/-- A client that asks for request 200 ends the server, and a node takes a reset that follows a
byte 0 for a part of the frame that the byte begins. -/
theorem harmless_run_fails :
    (¬ ∀ (pieces : Pieces) (connFd : Int) (bytes : List UInt8) (envs : List ServerEnv),
      Steps (fun t env => (Server.listener connFd env).serve pieces t) (fun t env =>
        t.isOpen = true → (Server.listener connFd env).Harmless pieces t.state t.inbound)
        ⟨.start forked, ⟨bytes, false, 0⟩, true⟩ envs) ∧
    ¬ ∀ (z : Zlib) (pieces : Pieces) (addr : UInt8) (bytes : List UInt8) (envs : List Env),
      Steps (fun t env => (nodeListener z env).serve pieces t) (fun t env =>
        t.isOpen = true → (nodeListener z env).Harmless pieces t.state t.inbound)
        ⟨.start addr, ⟨bytes, false, 0⟩, true⟩ envs := by
  refine ⟨fun hclaim => ?_, fun hclaim => ?_⟩
  · obtain ⟨hharmless, -⟩ := hclaim .whole 5 [3, 200, 0] [.quiet]
    refine (hharmless rfl).survives ?_
    have hread : (readFrame .whole ⟨[3, 200, 0], false, 0⟩).1 = some [200, 0] := by decide +kernel
    rw [Listener.dies_cons hread]
    exact ⟨⟨.client, by decide, rfl⟩, by unfold UnknownRequest; decide⟩
  · obtain ⟨hharmless, -⟩ := hclaim .stored .whole 0 [0, 3, 8, 2] [.zeroed .ideal]
    obtain ⟨-, -, hlength⟩ := (hharmless rfl).rejects 0 [3, 8, 2] rfl (.inl (by decide))
    exact absurd hlength (by decide +kernel)

end MeshNet
