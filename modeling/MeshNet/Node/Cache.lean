import MeshNet.Library.Run
import MeshNet.Node.Essentials

/-!
# Connections that are used again

A connection stays in its slot whatever comes of the writes to it; only a reset closes it, and the
one to the server not even then. Beside the slots stands what the operating system knows of the
descriptors: which port each is connected to, and whether a write to it has failed.
-/

namespace MeshNet
open Library

/-- What the rest of the node asks for: `node_essentials_get_conn_and_send`,
`node_essentials_notify_server` and `node_essentials_reset_connections`. -/
inductive Call where
  | send (port : UInt16) (bytes : List UInt8)
  | notify (notify : Notify)
  | reset

def Call.port? : Call → Option UInt16
  | send port _ => some port
  | notify _ => some serverPort
  | reset => none

def Link.call (l : Link) (env : Env) : Call → Link
  | .send port bytes => (l.getConnAndSend env.net port bytes).2
  | .notify notify => (l.notifyServer env notify).2
  | .reset => l.resetConnections

/-- The descriptor of the connection that is made for a port that has none. -/
def Link.connects (net : Net) (l : Link) (port : UInt16) : Option Int :=
  if l.isOpen port = true then none
  else if (∃ c ∈ l.connections, c.fd = -1) ∧ 0 < net.connect l.trace.length port then
    some (net.connect l.trace.length port)
  else none

/-- The slot is emptied by a reset. -/
def Conn.dropped (c : Conn) : Bool := c.port ≠ serverPort ∧ c.fd > 0 ∧ c.port < 65535

/-- An open connection. -/
structure Opened where
  port : UInt16
  broken : Bool
  deriving DecidableEq

/-- The slots, the descriptors that are open, and for every port whether a write to it has failed
since the last time a reset would have closed a connection to it. -/
structure Cache where
  link : Link
  opened : Int → Option Opened
  failed : UInt16 → Bool

namespace Cache

def start : Cache := ⟨.initial, fun _ => none, fun _ => false⟩

/-- The descriptors once `get_conn` has returned. -/
def openedBy (w : Cache) (net : Net) (port : UInt16) : Int → Option Opened :=
  match w.link.connects net port with
  | some fd => Function.update w.opened fd (some ⟨port, false⟩)
  | none => w.opened

/-- A connection is had and the write to it fails. -/
def Breaks (w : Cache) (net : Net) (port : UInt16) : Prop :=
  0 ≤ (w.link.getConn net port).1 ∧ net.write w.link.trace.length port = false

instance (w : Cache) (net : Net) (port : UInt16) : Decidable (w.Breaks net port) := by
  unfold Breaks; infer_instance

/-- What is open and what has failed after a frame was sent to a port. -/
def afterSend (w : Cache) (net : Net) (port : UInt16) :
    (Int → Option Opened) × (UInt16 → Bool) :=
  let opened := w.openedBy net port
  let fd := (w.link.getConn net port).1
  if w.Breaks net port then
    (Function.update opened fd ((opened fd).map fun o => { o with broken := true }),
      Function.update w.failed port true)
  else (opened, w.failed)

/-- The same after a reset, which closes the connections to all ports but the server's and the
highest one. -/
def afterReset (w : Cache) : (Int → Option Opened) × (UInt16 → Bool) :=
  (fun fd =>
      if w.link.connections.any (fun c => c.dropped && c.fd == fd) then none else w.opened fd,
    fun port => (port = serverPort ∨ port = 65535) && w.failed port)

def step (w : Cache) (i : Env × Call) : Cache :=
  let seen :=
    match i.2.port? with
    | some port => w.afterSend i.1.net port
    | none => w.afterReset
  ⟨w.link.call i.1 i.2, seen.1, seen.2⟩

/-- A new descriptor is one that is not open. -/
def Possible (w : Cache) (i : Env × Call) : Prop :=
  ∀ port fd, i.2.port? = some port → w.link.connects i.1.net port = some fd → w.opened fd = none

/-- What `get_conn` returns was made by connecting to the port, is open, and no write to it has
failed. -/
def Sound (w : Cache) (i : Env × Call) : Prop :=
  ∀ port, i.2.port? = some port → 0 ≤ (w.link.getConn i.1.net port).1 →
    w.openedBy i.1.net port (w.link.getConn i.1.net port).1 = some ⟨port, false⟩

/-- No write to the port has failed, or a reset has closed the connection since. -/
def Unspoilt (w : Cache) (i : Env × Call) : Prop :=
  ∀ port, i.2.port? = some port → w.failed port = false

/-- A live slot is an open connection to its port, the only one to this port, and broken if a write
has failed; for a port where one has there is such a slot. -/
structure Consistent (w : Cache) : Prop where
  slot : ∀ c ∈ w.link.connections,
    c.fd = -1 ∨ 0 < c.fd ∧ w.opened c.fd = some ⟨c.port, w.failed c.port⟩
  once : ∀ (i j : Nat) (c d : Conn), w.link.connections[i]? = some c →
    w.link.connections[j]? = some d → 0 < c.fd → 0 < d.fd → c.port = d.port → i = j
  spoilt : ∀ port, w.failed port = true → w.link.isOpen port = true

variable {w : Cache} {i : Env × Call} {net : Net} {l : Link} {port : UInt16} {fd : Int}

theorem consistent_start : start.Consistent := by
  have hfree : ∀ c ∈ Link.initial.connections, c = .free := fun _ hc => List.eq_of_mem_replicate hc
  refine ⟨fun c hc => .inl (by rw [hfree c hc]; rfl), fun i j c d hc _ hlive => ?_, nofun⟩
  rw [hfree c (List.mem_of_getElem? hc)] at hlive
  exact absurd hlive (by decide)

/-! ## A connection for a port -/

/-- A connection is had already, or it is made, or there is none. -/
theorem connects_cases (net : Net) (l : Link) (port : UInt16) :
    (l.isOpen port = true ∧ l.connects net port = none ∧ ∃ c ∈ l.connections,
      0 < c.fd ∧ c.port = port ∧ l.getConn net port = (c.fd, l)) ∨
    (l.isOpen port = false ∧ ∃ i c fd, l.connects net port = some fd ∧ 0 < fd ∧
      l.connections[i]? = some c ∧ c.fd = -1 ∧ l.getConn net port = (fd, l.setConn i ⟨fd, port⟩)) ∨
    (l.isOpen port = false ∧ l.connects net port = none ∧ l.getConn net port = (-1, l)) := by
  unfold Link.connects
  obtain ⟨hopen, -, heq⟩ | ⟨hclosed, i, c, hi, hfree, hfd, heq⟩ | ⟨hclosed, heq, hno⟩ :=
    Link.getConn_cases net l port
  · left
    refine ⟨hopen, by simp [hopen], ?_⟩
    cases hfind : l.connections.find? fun c => c.isLive && c.port == port with
    | none =>
      obtain ⟨c, hc, hlive⟩ := List.any_eq_true.mp hopen
      exact absurd hlive (List.find?_eq_none.mp hfind c hc)
    | some c =>
      have hc := List.find?_some hfind
      rw [Bool.and_eq_true, Conn.isLive, decide_eq_true_eq, beq_iff_eq] at hc
      exact ⟨c, List.mem_of_find?_eq_some hfind, hc.1, hc.2, by simp [Link.getConn, hfind]⟩
  · right; left
    have hslot : ∃ c ∈ l.connections, c.fd = -1 := ⟨c, List.mem_of_getElem? hi, hfree⟩
    exact ⟨hclosed, i, c, _, by simp [hclosed, hslot, hfd], hfd, hi, hfree, heq⟩
  · right; right
    refine ⟨hclosed, ?_, heq⟩
    have hnone : ¬ ((∃ c ∈ l.connections, c.fd = -1) ∧ 0 < net.connect l.trace.length port) := by
      rintro ⟨⟨c, hc, hfree⟩, hfd⟩
      obtain hfull | hno := hno
      · exact hfull c hc hfree
      · omega
    simp [hclosed, hnone]

/-- The slots and descriptors once `get_conn` has returned. -/
def connected (w : Cache) (net : Net) (port : UInt16) : Cache :=
  ⟨(w.link.getConn net port).2, w.openedBy net port, w.failed⟩

theorem failed_eq_false (h : w.Consistent) (hclosed : w.link.isOpen port = false) :
    w.failed port = false := by
  by_contra hfailed
  rw [Bool.not_eq_false] at hfailed
  rw [h.spoilt port hfailed] at hclosed
  cases hclosed

theorem consistent_connected (h : w.Consistent)
    (hnew : ∀ fd, w.link.connects net port = some fd → w.opened fd = none) :
    (w.connected net port).Consistent := by
  unfold connected openedBy
  obtain ⟨-, hnone, c, -, -, -, heq⟩ | ⟨hclosed, i, c, fd, hsome, hfd, hi, hfree, heq⟩ |
    ⟨-, hnone, heq⟩ := connects_cases net w.link port
  · rw [hnone, heq]
    exact h
  · rw [hsome, heq]
    have hunopened := hnew fd hsome
    obtain ⟨hlt, rfl⟩ := List.getElem?_eq_some_iff.mp hi
    have hother : ∀ d ∈ w.link.connections, 0 < d.fd → d.fd ≠ fd ∧ d.port ≠ port := by
      intro d hd hlive
      obtain hdead | ⟨-, hopened⟩ := h.slot d hd
      · omega
      · refine ⟨fun hsame => ?_, fun hsame => ?_⟩
        · rw [hsame, hunopened] at hopened
          cases hopened
        · have hopen : w.link.isOpen port = true :=
            List.any_eq_true.mpr ⟨d, hd, by simp [Conn.isLive, hlive, hsame]⟩
          rw [hopen] at hclosed
          cases hclosed
    refine ⟨fun d hd => ?_, fun j k d d' hd hd' hlive hlive' hsame => ?_, fun p hp => ?_⟩
    · obtain hd | rfl := List.mem_or_eq_of_mem_set hd
      · obtain hdead | ⟨hlive, hopened⟩ := h.slot d hd
        · exact .inl hdead
        · refine .inr ⟨hlive, ?_⟩
          dsimp only
          rw [Function.update_of_ne (hother d hd hlive).1, hopened]
      · exact .inr ⟨hfd, by simp [failed_eq_false h hclosed]⟩
    · simp only [Link.setConn, List.getElem?_set] at hd hd'
      by_cases hj : i = j <;> by_cases hk : i = k
      · exact hj.symm.trans hk
      · rw [if_pos hj, if_pos hlt] at hd
        rw [if_neg hk] at hd'
        cases hd
        exact absurd hsame.symm (hother d' (List.mem_of_getElem? hd') hlive').2
      · rw [if_neg hj] at hd
        rw [if_pos hk, if_pos hlt] at hd'
        cases hd'
        exact absurd hsame (hother d (List.mem_of_getElem? hd) hlive).2
      · rw [if_neg hj] at hd
        rw [if_neg hk] at hd'
        exact h.once j k d d' hd hd' hlive hlive' hsame
    · rw [Link.isOpen_setConn hi hfree hfd, h.spoilt p hp, Bool.true_or]
  · rw [hnone, heq]
    exact h

/-- The descriptor that `get_conn` returns is in a live slot for the port. -/
theorem live_getConn (hfd : 0 ≤ (l.getConn net port).1) :
    ∃ c ∈ (l.getConn net port).2.connections,
      c.fd = (l.getConn net port).1 ∧ 0 < c.fd ∧ c.port = port := by
  obtain ⟨-, -, c, hc, hlive, hport, heq⟩ | ⟨-, i, c, fd, -, hfd', hi, -, heq⟩ | ⟨-, -, heq⟩ :=
    connects_cases net l port
  · rw [heq]
    exact ⟨c, hc, rfl, hlive, hport⟩
  · obtain ⟨hlt, -⟩ := List.getElem?_eq_some_iff.mp hi
    rw [heq]
    exact ⟨⟨fd, port⟩, List.mem_set hlt _, rfl, hfd', rfl⟩
  · rw [heq] at hfd
    cases hfd

/-- The connection `c` breaks. -/
theorem Consistent.breaks (h : w.Consistent) {c : Conn} (hc : c ∈ w.link.connections)
    (hlive : 0 < c.fd) :
    Consistent ⟨w.link,
      Function.update w.opened c.fd ((w.opened c.fd).map fun o => { o with broken := true }),
      Function.update w.failed c.port true⟩ := by
  have hopened := (h.slot c hc).resolve_left (by omega)
  refine ⟨?_, h.once, fun p hp => ?_⟩
  · intro d hd
    refine (h.slot d hd).imp_right ?_
    rintro ⟨hlive', hopened'⟩
    refine ⟨hlive', ?_⟩
    dsimp only
    by_cases hsame : d.fd = c.fd
    · rw [hsame, hopened.2] at hopened'
      have hport : c.port = d.port := (Opened.mk.inj (Option.some.inj hopened')).1
      rw [hsame, Function.update_self, hopened.2, ← hport, Function.update_self]
      rfl
    · have hport : d.port ≠ c.port := by
        intro hport
        obtain ⟨i, hi⟩ := List.getElem?_of_mem hc
        obtain ⟨j, hj⟩ := List.getElem?_of_mem hd
        have hij := h.once j i d c hj hi hlive' hlive hport
        rw [hij, hi] at hj
        exact hsame (congrArg Conn.fd (Option.some.inj hj)).symm
      rw [Function.update_of_ne hsame, Function.update_of_ne hport, hopened']
  · by_cases hport : p = c.port
    · exact List.any_eq_true.mpr ⟨c, hc, by simp [Conn.isLive, hlive, hport]⟩
    · dsimp only at hp
      rw [Function.update_of_ne hport] at hp
      exact h.spoilt p hp

theorem Consistent.congr {w' : Cache} (h : w.Consistent)
    (hconnections : w'.link.connections = w.link.connections) (hopened : w'.opened = w.opened)
    (hfailed : w'.failed = w.failed) : w'.Consistent := by
  refine ⟨?_, ?_, ?_⟩
  · rw [hconnections, hopened, hfailed]
    exact h.slot
  · rw [hconnections]
    exact h.once
  · unfold Link.isOpen
    rw [hconnections, hfailed]
    exact h.spoilt

theorem consistent_afterSend (h : w.Consistent)
    (hnew : ∀ fd, w.link.connects net port = some fd → w.opened fd = none) {bytes : List UInt8} :
    Consistent ⟨(w.link.getConnAndSend net port bytes).2, (w.afterSend net port).1,
      (w.afterSend net port).2⟩ := by
  have hconnected := consistent_connected h hnew
  unfold afterSend
  dsimp only
  split
  · rename_i hbreaks
    obtain ⟨c, hc, hfd, hlive, hport⟩ := live_getConn hbreaks.1
    have hbroken := hconnected.breaks hc hlive
    rw [hfd, hport] at hbroken
    exact hbroken.congr rfl rfl rfl
  · exact hconnected.congr rfl rfl rfl

/-- A slot that is live after a reset was not to be emptied. -/
theorem getElem?_resetConnections {j : Nat} {c : Conn}
    (hc : l.resetConnections.connections[j]? = some c) (hlive : c.fd ≠ -1) :
    l.connections[j]? = some c ∧ c.dropped = false := by
  rw [Link.resetConnections, List.getElem?_map] at hc
  obtain ⟨d, hd, hdc⟩ := Option.map_eq_some_iff.mp hc
  split at hdc
  · exact absurd (hdc ▸ rfl) hlive
  · rename_i hkept
    subst hdc
    exact ⟨hd, by simpa only [Conn.dropped, decide_eq_false_iff_not] using hkept⟩

theorem mem_resetConnections {c : Conn} (hc : c ∈ l.connections) (hkept : c.dropped = false) :
    c ∈ l.resetConnections.connections := by
  rw [Conn.dropped, decide_eq_false_iff_not] at hkept
  exact List.mem_map.mpr ⟨c, hc, if_neg hkept⟩

theorem dropped_iff {c : Conn} (hlive : 0 < c.fd) :
    c.dropped = true ↔ ¬ (c.port = serverPort ∨ c.port = 65535) := by
  have hmax : c.port < 65535 ↔ c.port ≠ 65535 := by
    constructor
    · exact fun hlt heq => absurd (heq ▸ hlt) (by decide)
    · intro hne
      have := c.port.toNat_lt
      have hne' : c.port.toNat ≠ 65535 := fun h => hne (UInt16.toNat_inj.mp h)
      exact UInt16.lt_iff_toNat_lt.mpr (by change c.port.toNat < 65535; omega)
  rw [Conn.dropped, decide_eq_true_iff, hmax]
  simp [hlive]

theorem consistent_afterReset (h : w.Consistent) :
    Consistent ⟨w.link.resetConnections, w.afterReset.1, w.afterReset.2⟩ := by
  refine ⟨fun c hc => ?_, fun j k c d hc hd hlive hlive' hsame => ?_, fun port hport => ?_⟩
  · obtain ⟨j, hj⟩ := List.getElem?_of_mem hc
    by_cases hfd : c.fd = -1
    · exact .inl hfd
    · obtain ⟨hj', hkept⟩ := getElem?_resetConnections hj hfd
      obtain ⟨hlive, hopened⟩ := (h.slot c (List.mem_of_getElem? hj')).resolve_left hfd
      refine .inr ⟨hlive, ?_⟩
      -- no emptied slot has the descriptor of one that stays
      have hnone : w.link.connections.any (fun d => d.dropped && d.fd == c.fd) = false := by
        refine List.any_eq_false.mpr fun d hd hdropped => ?_
        rw [Bool.and_eq_true, beq_iff_eq] at hdropped
        obtain hdead | ⟨hlive', hopened'⟩ := h.slot d hd
        · exact hfd (hdropped.2 ▸ hdead)
        · rw [hdropped.2, hopened] at hopened'
          have hport : c.port = d.port := (Opened.mk.inj (Option.some.inj hopened')).1
          have hd := (dropped_iff hlive').mp hdropped.1
          rw [← hport] at hd
          rw [(dropped_iff hlive).mpr hd] at hkept
          cases hkept
      have hstays : c.port = serverPort ∨ c.port = 65535 := by
        by_contra hdrops
        rw [(dropped_iff hlive).mpr hdrops] at hkept
        cases hkept
      simp only [afterReset, hnone, Bool.false_eq_true, if_false, hopened, hstays, decide_true,
        Bool.true_and]
  · exact h.once j k c d (getElem?_resetConnections hc (by omega)).1
      (getElem?_resetConnections hd (by omega)).1 hlive hlive' hsame
  · simp only [afterReset, Bool.and_eq_true, decide_eq_true_eq] at hport
    obtain ⟨c, hc, hopen⟩ := List.any_eq_true.mp (h.spoilt port hport.2)
    simp only [Conn.isLive, Bool.and_eq_true, decide_eq_true_eq, beq_iff_eq] at hopen
    have hkept : c.dropped = false := by
      by_contra hdrops
      rw [Bool.not_eq_false, dropped_iff hopen.1, hopen.2] at hdrops
      exact hdrops hport.1
    exact List.any_eq_true.mpr ⟨c, mem_resetConnections hc hkept, by simp [Conn.isLive, hopen]⟩

theorem consistent_step (hnew : w.Possible i) (h : w.Consistent) : (w.step i).Consistent := by
  obtain ⟨env, call⟩ := i
  cases call with
  | send port bytes => exact consistent_afterSend h fun fd hfd => hnew port fd rfl hfd
  | notify notify => exact consistent_afterSend h fun fd hfd => hnew serverPort fd rfl hfd
  | reset => exact consistent_afterReset h

/-! ## What is returned -/

theorem sound_iff (h : w.Consistent) : w.Sound i ↔ w.Unspoilt i := by
  unfold Sound Unspoilt openedBy
  refine forall_congr' fun port => imp_congr_right fun _ => ?_
  obtain ⟨-, hnone, c, hc, hlive, rfl, heq⟩ | ⟨hclosed, j, c, fd, hsome, hfd, -, -, heq⟩ |
    ⟨hclosed, hnone, heq⟩ := connects_cases i.1.net w.link port
  · obtain ⟨-, hopened⟩ := (h.slot c hc).resolve_left (by omega)
    simp [hnone, heq, hopened, Int.le_of_lt hlive]
  · simp [hsome, heq, failed_eq_false h hclosed]
  · simp [hnone, heq, failed_eq_false h hclosed]

/-- Every connection that is used was made for its port, is open and unbroken, if and only if no
port is used again after a failed write without a reset that closes the connection to it. -/
theorem sound_run_iff (is : List (Env × Call)) (hnew : Steps step Possible start is) :
    Steps step Sound start is ↔ Steps step Unspoilt start is := by
  have hconsistent := hnew.with_invariant Consistent (fun _ _ => consistent_step) consistent_start
  constructor
  · exact fun h => (steps_and.mpr ⟨hconsistent, h⟩).imp fun _ _ h => (sound_iff h.1.1).mp h.2
  · exact fun h => (steps_and.mpr ⟨hconsistent, h⟩).imp fun _ _ h => (sound_iff h.1.1).mpr h.2

/-- The neighbour on port 1001 is connected to and the write to it fails. -/
def breaking : Env × Call :=
  (.zeroed ⟨fun _ _ => 3, fun _ _ => false, fun _ => true, Net.ideal.connect_range⟩,
    .send 1001 [1])

theorem possible_breaking : Steps step Possible start [breaking, breaking] := by
  refine ⟨fun port fd _ _ => rfl, fun port fd hport hfd => ?_, trivial⟩
  cases hport
  have hnone : (start.step breaking).link.connects breaking.1.net 1001 = none := by decide +kernel
  rw [hnone] at hfd
  cases hfd

theorem sound_run_iff_breaking :
    Steps step Sound start [breaking, breaking] ↔ Steps step Unspoilt start [breaking, breaking] :=
  sound_run_iff [breaking, breaking] possible_breaking

/-- The second frame follows the first on the connection that has failed. -/
theorem sound_run_broken :
    ¬ ∀ is : List (Env × Call), Steps step Possible start is → Steps step Sound start is := by
  intro hclaim
  obtain ⟨-, hsound, -⟩ := hclaim [breaking, breaking] possible_breaking
  exact absurd (hsound 1001 rfl (by decide +kernel)) (by decide +kernel)

end Cache

end MeshNet
