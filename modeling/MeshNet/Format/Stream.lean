import MeshNet.Library.Run
import MeshNet.Format.Receive

/-!
# Frames on a connection

A connection carries a stream of bytes, which `send` takes and `recv` returns in pieces of any
size. `io_write_all` and `io_read_all` go on until all has been moved, so that `handle_request`
finds the frames as they were written.
-/

namespace MeshNet
open Library

/-- How many bytes the `i`th attempt moves, of `m` that it could move. -/
structure Pieces where
  size : Nat → Nat → Nat
  pos : ∀ i {m}, 0 < m → 0 < size i m
  le : ∀ i m, size i m ≤ m

/-- The reading end of a connection: what comes until the peer closes it or it breaks, and how
often `recv` was called. -/
structure Inbound where
  bytes : List UInt8
  broken : Bool
  attempts : Nat

variable (pieces : Pieces)

/-- The result of `recv` with the bytes it stores. -/
def Inbound.recv (c : Inbound) (n : Nat) : Int × List UInt8 × Inbound :=
  if c.bytes = [] then (if c.broken then -1 else 0, [], { c with attempts := c.attempts + 1 })
  else
    let k := pieces.size c.attempts (min n c.bytes.length)
    (k, c.bytes.take k, { c with bytes := c.bytes.drop k, attempts := c.attempts + 1 })

/-- The loop of `io_read_all`. Every round but the last brings a byte, so that `n` are enough. -/
def readLoop : (rounds : Nat) → (n : UInt8) → Inbound → Bool × List UInt8 × Inbound
  | 0, _, c => (true, [], c)
  | rounds + 1, n, c =>
    if n > 0 then
      let r := c.recv pieces n.toNat
      if r.1 ≤ 0 then (r.1 == 0, [], r.2.2)
      else
        let rest := readLoop rounds (n - UInt8.ofNat r.1.toNat) r.2.2
        (rest.1, r.2.1 ++ rest.2.1, rest.2.2)
    else (true, [], c)

/-- The end of the stream is no failure; that fewer bytes have come is for the caller to see. -/
def ioReadAll (n : UInt8) (c : Inbound) : Bool × List UInt8 × Inbound :=
  readLoop pieces n.toNat n c

/-- The loop of `io_write_all`: the bytes that `send` accepts from a buffer, and the number of
attempts. -/
def writeLoop : (rounds : Nat) → (n : UInt8) → (buf : List UInt8) → (attempts : Nat) →
    List UInt8 × Nat
  | 0, _, _, attempts => ([], attempts)
  | rounds + 1, n, buf, attempts =>
    if n > 0 then
      let k := pieces.size attempts n.toNat
      let rest := writeLoop rounds (n - UInt8.ofNat k) (buf.drop k) (attempts + 1)
      (buf.take k ++ rest.1, rest.2)
    else ([], attempts)

def ioWriteAll (n : UInt8) (buf : List UInt8) (attempts : Nat) : List UInt8 × Nat :=
  writeLoop pieces n.toNat n buf attempts

/-- What `handle_request` reads of a frame and passes on, which is the same for the server and a
node. -/
def readFrame (c : Inbound) : Option (List UInt8) × Inbound :=
  let first := ioReadAll pieces 1 c
  match first.2.1 with
  | [] => (none, first.2.2)
  | msgLen :: _ =>
    let body := ioReadAll pieces (msgLen - 1) first.2.2
    if !body.1 then (none, body.2.2)
    else if formatIsMessageCorrect body.2.1.length (msgLen - 1) then (some body.2.1, body.2.2)
    else (none, body.2.2)

/-- One call of `handle_request` on a connection, with the listener it passes the body to. -/
def handleRequest {σ : Type} (listener : σ → List UInt8 → Bool × σ) (s : σ) (c : Inbound) :
    Bool × σ × Inbound :=
  match readFrame pieces c with
  | (some body, c) => ((listener s body).1, (listener s body).2, c)
  | (none, c) => (false, s, c)

/-! ## What the loops move -/

variable {pieces}

theorem toNat_sub_piece {n : UInt8} {k : Nat} (hk : k ≤ n.toNat) :
    (n - UInt8.ofNat k).toNat = n.toNat - k := by
  have hn := n.toNat_lt
  have hof : (UInt8.ofNat k).toNat = k := by
    rw [UInt8.toNat_ofNat']
    exact Nat.mod_eq_of_lt (by omega)
  have hle : UInt8.ofNat k ≤ n := by
    rw [UInt8.le_iff_toNat_le, hof]
    exact hk
  rw [UInt8.toNat_sub_of_le _ _ hle, hof]

theorem take_append_take_drop {α : Type} (l : List α) (k n : Nat) :
    l.take k ++ (l.drop k).take n = l.take (k + n) :=
  List.take_add.symm

/-- All that was asked for is read, or what there is of it. -/
theorem readLoop_eq {rounds : Nat} {n : UInt8} (h : n.toNat ≤ rounds) (c : Inbound) :
    ∃ attempts, readLoop pieces rounds n c =
      (decide (n.toNat ≤ c.bytes.length) || !c.broken, c.bytes.take n.toNat,
        ⟨c.bytes.drop n.toNat, c.broken, attempts⟩) := by
  induction rounds generalizing n c with
  | zero =>
    have hn : n.toNat = 0 := Nat.le_zero.mp h
    exact ⟨c.attempts, by simp [readLoop, hn]⟩
  | succ rounds ih =>
    by_cases hn : n > 0
    · have hpos : 0 < n.toNat := UInt8.lt_iff_toNat_lt.mp hn
      by_cases hempty : c.bytes = []
      · refine ⟨c.attempts + 1, ?_⟩
        rw [readLoop, if_pos hn]
        cases hbroken : c.broken <;>
          simp [Inbound.recv, hempty, hbroken, Nat.pos_iff_ne_zero.mp hpos]
      · have hmin : 0 < min n.toNat c.bytes.length :=
          Nat.lt_min.mpr ⟨hpos, List.length_pos_iff.mpr hempty⟩
        let k := pieces.size c.attempts (min n.toNat c.bytes.length)
        have hk0 : 0 < k := pieces.pos _ hmin
        have hkmin : k ≤ min n.toNat c.bytes.length := pieces.le _ _
        have hkn : k ≤ n.toNat := Nat.le_trans hkmin (Nat.min_le_left _ _)
        have hkl : k ≤ c.bytes.length := Nat.le_trans hkmin (Nat.min_le_right _ _)
        have hsub : (n - UInt8.ofNat (k : Int).toNat).toNat = n.toNat - k := toNat_sub_piece hkn
        have hfuel : (n - UInt8.ofNat (k : Int).toNat).toNat ≤ rounds := by omega
        obtain ⟨attempts, hrest⟩ := ih hfuel ⟨c.bytes.drop k, c.broken, c.attempts + 1⟩
        refine ⟨attempts, ?_⟩
        have hrecv : c.recv pieces n.toNat =
            ((k : Int), c.bytes.take k, ⟨c.bytes.drop k, c.broken, c.attempts + 1⟩) := by
          rw [Inbound.recv, if_neg hempty]
        have hround : ¬ ((k : Int) ≤ 0) := by omega
        have hlength : (decide (n.toNat - k ≤ (c.bytes.drop k).length)) =
            decide (n.toNat ≤ c.bytes.length) := by
          rw [List.length_drop, decide_eq_decide]
          omega
        rw [readLoop, if_pos hn, hrecv]
        simp only [hround, if_false, hrest, hsub, hlength, take_append_take_drop,
          List.drop_drop, Nat.add_sub_cancel' hkn]
    · have hzero : n.toNat = 0 := by
        simpa [UInt8.lt_iff_toNat_lt] using hn
      exact ⟨c.attempts, by simp [readLoop, hn, hzero]⟩

theorem ioReadAll_eq (pieces : Pieces) (n : UInt8) (c : Inbound) :
    ∃ attempts, ioReadAll pieces n c =
      (decide (n.toNat ≤ c.bytes.length) || !c.broken, c.bytes.take n.toNat,
        ⟨c.bytes.drop n.toNat, c.broken, attempts⟩) :=
  readLoop_eq (Nat.le_refl _) c

theorem writeLoop_eq {rounds : Nat} {n : UInt8} (h : n.toNat ≤ rounds) (buf : List UInt8)
    (attempts : Nat) : (writeLoop pieces rounds n buf attempts).1 = buf.take n.toNat := by
  induction rounds generalizing n buf attempts with
  | zero => simp [writeLoop, Nat.le_zero.mp h]
  | succ rounds ih =>
    by_cases hn : n > 0
    · have hpos : 0 < n.toNat := UInt8.lt_iff_toNat_lt.mp hn
      have hk0 := pieces.pos attempts hpos
      have hkn := pieces.le attempts n.toNat
      have hsub := toNat_sub_piece hkn
      rw [writeLoop, if_pos hn]
      dsimp only
      rw [ih (by omega), hsub, take_append_take_drop, Nat.add_sub_cancel' hkn]
    · have hzero : n.toNat = 0 := by
        simpa [UInt8.lt_iff_toNat_lt] using hn
      simp [writeLoop, hn, hzero]

theorem ioWriteAll_eq (n : UInt8) (buf : List UInt8) (attempts : Nat) :
    (ioWriteAll pieces n buf attempts).1 = buf.take n.toNat :=
  writeLoop_eq (Nat.le_refl _) buf attempts

/-! ## What is read of a frame -/

theorem readFrame_nil (pieces : Pieces) {c : Inbound} (h : c.bytes = []) :
    (readFrame pieces c).1 = none ∧ (readFrame pieces c).2.bytes = [] := by
  obtain ⟨attempts, hfirst⟩ := ioReadAll_eq pieces 1 c
  rw [readFrame, hfirst, h]
  exact ⟨rfl, rfl⟩

theorem readFrame_cons (pieces : Pieces) {c : Inbound} {msgLen : UInt8} {rest : List UInt8}
    (h : c.bytes = msgLen :: rest) :
    (readFrame pieces c).1 = (if 1 < (msgLen - 1).toNat ∧ (msgLen - 1).toNat ≤ rest.length then
        some (rest.take (msgLen - 1).toNat) else none) ∧
      (readFrame pieces c).2.bytes = rest.drop (msgLen - 1).toNat := by
  obtain ⟨attempts, hfirst⟩ := ioReadAll_eq pieces 1 c
  obtain ⟨attempts', hbody⟩ :=
    ioReadAll_eq pieces (msgLen - 1) ⟨rest, c.broken, attempts⟩
  have hone : (1 : UInt8).toNat = 1 := rfl
  rw [h, hone, List.take_succ_cons, List.drop_succ_cons, List.drop_zero] at hfirst
  rw [readFrame, hfirst]
  dsimp only
  rw [hbody]
  generalize hn : (msgLen - 1).toNat = n
  by_cases hlength : n ≤ rest.length
  · have htake : (rest.take n).length = n := List.length_take_of_le hlength
    simp only [formatIsMessageCorrect, htake, hn, hlength, decide_true, Bool.true_or, Bool.not_true]
    by_cases hone : 1 < n <;> simp [hone]
  · have htake : (rest.take n).length = rest.length := by
      rw [List.length_take]
      omega
    have hne : rest.length ≠ n := by omega
    cases c.broken <;> simp [formatIsMessageCorrect, htake, hn, hlength, hne]

/-- A whole frame is read with its body, and nothing of what follows it. -/
theorem readFrame_whole (pieces : Pieces) {c : Inbound} {msgLen : UInt8} {body rest : List UInt8}
    (h : c.bytes = msgLen :: (body ++ rest)) (hbody : 1 < body.length)
    (hlen : (msgLen - 1).toNat = body.length) :
    (readFrame pieces c).1 = some body ∧ (readFrame pieces c).2.bytes = rest := by
  obtain ⟨hread, hrest⟩ := readFrame_cons pieces h
  rw [hlen, List.take_left, if_pos ⟨hbody, by simp⟩] at hread
  rw [hlen, List.drop_left] at hrest
  exact ⟨hread, hrest⟩

/-- However the bytes come in, a frame is received as from all of them at once. -/
theorem receive_eq_readFrame (pieces : Pieces) (heap : Message) (stack : Nat → UInt8)
    (c : Inbound) :
    receive heap stack c.bytes = (readFrame pieces c).1.map (parseBody heap stack) := by
  cases hbytes : c.bytes with
  | nil =>
    rw [(readFrame_nil pieces hbytes).1]
    rfl
  | cons msgLen rest =>
    rw [(readFrame_cons pieces hbytes).1, receive]
    generalize (msgLen - 1) = n
    by_cases hlength : n.toNat ≤ rest.length
    · have htake : (rest.take n.toNat).length = n.toNat := List.length_take_of_le hlength
      by_cases hone : 1 < n.toNat <;> simp [formatIsMessageCorrect, htake, hone, hlength]
    · have htake : (rest.take n.toNat).length = rest.length := by
        rw [List.length_take]
        omega
      have hne : rest.length ≠ n.toNat := by omega
      simp [formatIsMessageCorrect, htake, hne, hlength]

/-! ## Frames written one after another -/

/-- A frame of `format_create`, in a buffer that held `buf` before. -/
structure Written where
  getpid : Int32
  req : Request
  payload : Option Payload
  sender : RequestSender
  frame : Frame
  created : formatCreate getpid req payload sender = some frame
  long : msgBaseLen ≤ frame.len.toNat
  buf : Nat → UInt8

namespace Written

def bytes (w : Written) : List UInt8 := w.frame.sent w.buf

/-- What follows the length byte. -/
def body (w : Written) : List UInt8 := w.bytes.tail

theorem length_bytes (w : Written) : w.bytes.length = w.frame.len.toNat := by
  rw [bytes, Frame.sent, List.length_take, List.length_append, List.length_map, List.length_range]
  omega

theorem bytes_eq (w : Written) : w.bytes = w.frame.len :: w.body := by
  obtain ⟨rest, hhead⟩ := formatCreate_head w.created
  obtain ⟨n, hn⟩ : ∃ n, w.frame.len.toNat = n + 1 :=
    Nat.exists_eq_add_one.mpr (Nat.lt_of_lt_of_le (by decide) w.long)
  rw [body, bytes, Frame.sent, hhead, hn]
  rfl

theorem length_body (w : Written) : w.body.length = (w.frame.len - 1).toNat := by
  have hlong := w.long
  have hlength := w.length_bytes
  rw [bytes_eq, List.length_cons] at hlength
  have hle : (1 : UInt8) ≤ w.frame.len := by
    rw [UInt8.le_iff_toNat_le]
    exact Nat.le_trans (by decide) hlong
  rw [UInt8.toNat_sub_of_le _ _ hle]
  change _ = _ - 1
  omega

theorem one_lt_length_body (w : Written) : 1 < w.body.length := by
  have hlong := w.long
  have hlength := w.length_bytes
  rw [bytes_eq, List.length_cons] at hlength
  change 1 + 1 + 1 ≤ _ at hlong
  omega

end Written

/-- The frames are written one after another on one connection. -/
def writeAll (pieces : Pieces) : List Written → (attempts : Nat) → List UInt8
  | [], _ => []
  | w :: ws, attempts =>
    let r := ioWriteAll pieces w.frame.len w.bytes attempts
    r.1 ++ writeAll pieces ws r.2

theorem writeAll_eq (ws : List Written) (attempts : Nat) :
    writeAll pieces ws attempts = ws.flatMap Written.bytes := by
  induction ws generalizing attempts with
  | nil => rfl
  | cons w ws ih =>
    rw [writeAll, List.flatMap_cons, ih, ioWriteAll_eq, ← w.length_bytes, List.take_length]

/-- Of a frame that breaks off nothing is passed on. -/
theorem readFrame_cut (pieces : Pieces) (w : Written) (k : Fin w.bytes.length) {c : Inbound}
    (h : c.bytes = w.bytes.take k) :
    (readFrame pieces c).1 = none ∧ (readFrame pieces c).2.bytes = [] := by
  obtain ⟨k, hk⟩ := k
  cases k with
  | zero => exact readFrame_nil pieces h
  | succ k =>
    replace h : c.bytes = w.bytes.take (k + 1) := h
    rw [w.bytes_eq, List.take_succ_cons] at h
    rw [w.bytes_eq, List.length_cons] at hk
    obtain ⟨hread, hrest⟩ := readFrame_cons pieces h
    have hshort : (w.body.take k).length < (w.frame.len - 1).toNat := by
      rw [← w.length_body, List.length_take]
      omega
    rw [if_neg fun hboth => absurd hboth.2 (Nat.not_le.mpr hshort)] at hread
    rw [List.drop_eq_nil_of_le (Nat.le_of_lt hshort)] at hrest
    exact ⟨hread, hrest⟩

variable {σ : Type} {listener : σ → List UInt8 → Bool × σ} {s : σ} {c : Inbound}

theorem handleRequest_some {body : List UInt8} (h : (readFrame pieces c).1 = some body) :
    handleRequest pieces listener s c =
      ((listener s body).1, (listener s body).2, (readFrame pieces c).2) := by
  rw [handleRequest]
  split
  · rename_i heq
    rw [heq] at h ⊢
    cases h
    rfl
  · rename_i heq
    rw [heq] at h
    cases h

theorem handleRequest_none (h : (readFrame pieces c).1 = none) :
    handleRequest pieces listener s c = (false, s, (readFrame pieces c).2) := by
  rw [handleRequest]
  split
  · rename_i heq
    rw [heq] at h
    cases h
  · rename_i heq
    rw [heq]

/-- `handle_request` is called `calls` times. -/
def handleRequests (pieces : Pieces) (listener : σ → List UInt8 → Bool × σ) :
    (calls : Nat) → σ × Inbound → σ × Inbound
  | 0, t => t
  | calls + 1, t => handleRequests pieces listener calls (handleRequest pieces listener t.1 t.2).2

theorem handleRequests_nil (calls : Nat) (h : c.bytes = []) :
    (handleRequests pieces listener calls (s, c)).1 = s := by
  induction calls generalizing c with
  | zero => rfl
  | succ calls ih =>
    obtain ⟨hread, hrest⟩ := readFrame_nil pieces h
    rw [handleRequests, handleRequest_none hread]
    exact ih hrest

/-- Whatever the pieces in which the frames are written and read, the listener is passed the body
of each whole frame, in order; of a last one that breaks off it is passed nothing. -/
theorem handleRequests_written (snd rcv : Pieces) (ws : List Written) (w : Written)
    (k : Fin w.bytes.length) (broken : Bool) (attempts : Nat)
    (listener : σ → List UInt8 → Bool × σ) (s : σ) (calls : Nat) :
    (handleRequests rcv listener calls
        (s, ⟨writeAll snd ws attempts ++ w.bytes.take k, broken, 0⟩)).1 =
      ((ws.map Written.body).take calls).foldl (fun s body => (listener s body).2) s := by
  rw [writeAll_eq]
  generalize hc : (⟨_, broken, 0⟩ : Inbound) = c
  replace hc : c.bytes = ws.flatMap Written.bytes ++ w.bytes.take k := hc ▸ rfl
  induction calls generalizing ws s c with
  | zero => rfl
  | succ calls ih =>
    cases ws with
    | nil =>
      obtain ⟨hread, hrest⟩ := readFrame_cut rcv w k hc
      rw [handleRequests, handleRequest_none hread]
      exact handleRequests_nil calls hrest
    | cons first ws =>
      rw [List.flatMap_cons, List.append_assoc, first.bytes_eq, List.cons_append] at hc
      obtain ⟨hread, hrest⟩ := readFrame_whole rcv hc first.one_lt_length_body
        first.length_body.symm
      rw [handleRequests, handleRequest_some hread]
      exact ih (s := (listener s first.body).2) ws _ hrest

/-- A node tells of the message with the number 7. -/
def notified : Written :=
  ⟨0, .notify, some (.notify ⟨.known .gotMessage, 7⟩), .node, _, rfl, by decide, fun _ => 0⟩

/-- Every attempt moves one byte. -/
def Pieces.single : Pieces :=
  ⟨fun _ m => min 1 m, fun _ _ hm => Nat.lt_min.mpr ⟨Nat.one_pos, hm⟩,
    fun _ _ => Nat.min_le_right ..⟩

theorem handleRequests_written_notified :
    (handleRequests .single (fun bodies body => (true, bodies ++ [body])) 3
        ([], ⟨writeAll .single [notified, notified] 0 ++ notified.bytes.take 3, false, 0⟩)).1 =
      [[3, 1, 0, 7, 0], [3, 1, 0, 7, 0]] :=
  handleRequests_written .single .single [notified, notified] notified ⟨3, by decide⟩ false 0 _ []
    3

end MeshNet
