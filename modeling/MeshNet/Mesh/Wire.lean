import MeshNet.Format.Stream

/-!
# The bytes on a connection

What a peer has written at once, a frame or the one byte of a result, is some bytes of a stream to
the peer that reads it: a length byte, and as many bytes as this announces.
-/

namespace MeshNet
open Library

/-- Bytes that were written to a connection at once. -/
structure Post where
  bytes : List UInt8
  era : Nat
  deriving DecidableEq

/-- The stream that the peer reads from. -/
def stream (posts : List Post) : List UInt8 := posts.flatMap Post.bytes

/-- The next `n` bytes and what follows them, once all of them have come. -/
def takeBytes : List Post → Nat → Option (List UInt8 × List Post)
  | posts, 0 => some ([], posts)
  | [], _ + 1 => none
  | f :: rest, n + 1 =>
    if n + 1 < f.bytes.length then
      some (f.bytes.take (n + 1), { f with bytes := f.bytes.drop (n + 1) } :: rest)
    else (takeBytes rest (n + 1 - f.bytes.length)).map fun r => (f.bytes ++ r.1, r.2)

/-- What `handle_request` takes for the next frame. -/
def nextFrame : List Post → Option (Post × List Post)
  | [] => none
  | ⟨[], _⟩ :: rest => nextFrame rest
  | ⟨msgLen :: body, era⟩ :: rest =>
    (takeBytes (⟨body, era⟩ :: rest) (msgLen - 1).toNat).map fun r => (⟨msgLen :: r.1, era⟩, r.2)

/-- What it takes for the next frame behind the first `k` writes. -/
def frameAt (k : Nat) (posts : List Post) : Option (Post × List Post) :=
  (nextFrame (posts.drop k)).map fun r => (r.1, posts.take k ++ r.2)

/-- A length byte with as many bytes as it announces, and at least one. -/
def Whole (bytes : List UInt8) : Prop :=
  ∃ msgLen body, bytes = msgLen :: body ∧ body ≠ [] ∧ body.length = (msgLen - 1).toNat

variable {posts rest : List Post} {f : Post} {n k : Nat} {taken : List UInt8}

/-! ## Streams -/

theorem stream_cons (f : Post) (posts : List Post) :
    stream (f :: posts) = f.bytes ++ stream posts :=
  List.flatMap_cons

theorem takeBytes_some (h : takeBytes posts n = some (taken, rest)) :
    stream posts = taken ++ stream rest ∧ taken.length = n := by
  induction posts generalizing n taken with
  | nil =>
    cases n with
    | zero =>
      cases h
      exact ⟨rfl, rfl⟩
    | succ n => cases h
  | cons f posts ih =>
    cases n with
    | zero =>
      cases h
      exact ⟨rfl, rfl⟩
    | succ n =>
      rw [takeBytes] at h
      split at h
      · rename_i hlt
        cases h
        refine ⟨?_, List.length_take_of_le (Nat.le_of_lt hlt)⟩
        rw [stream_cons, stream_cons, ← List.append_assoc, List.take_append_drop]
      · rename_i hge
        obtain ⟨⟨taken', rest'⟩, hrest, heq⟩ := Option.map_eq_some_iff.mp h
        cases heq
        obtain ⟨hstream, hlength⟩ := ih hrest
        refine ⟨by rw [stream_cons, hstream, List.append_assoc], ?_⟩
        rw [List.length_append, hlength]
        omega

theorem takeBytes_none (h : takeBytes posts n = none) : (stream posts).length < n := by
  induction posts generalizing n with
  | nil =>
    cases n with
    | zero => cases h
    | succ n => exact Nat.succ_pos n
  | cons f posts ih =>
    cases n with
    | zero => cases h
    | succ n =>
      rw [takeBytes] at h
      split at h
      · cases h
      · have hshort := ih (Option.map_eq_none_iff.mp h)
        rw [stream_cons, List.length_append]
        omega

/-- A frame is read whenever its bytes come in pieces of any size, and nothing of what follows. -/
theorem readFrame_of_nextFrame (pieces : Pieces) {c : Inbound} (hc : c.bytes = stream posts)
    (h : nextFrame posts = some (f, rest)) :
    (readFrame pieces c).2.bytes = stream rest ∧ ∀ heap stack,
      (readFrame pieces c).1.map (parseBody heap stack) = receive heap stack f.bytes := by
  induction posts with
  | nil => cases h
  | cons g posts ih =>
    obtain ⟨_ | ⟨msgLen, body⟩, era⟩ := g
    · exact ih hc h
    · obtain ⟨⟨taken, left⟩, htaken, heq⟩ := Option.map_eq_some_iff.mp h
      cases heq
      obtain ⟨hstream, hlength⟩ := takeBytes_some htaken
      have hbytes : c.bytes = msgLen :: (taken ++ stream left) := by
        rw [hc, stream_cons, List.cons_append, ← hstream, stream_cons]
      obtain ⟨hread, hrest⟩ := readFrame_cons pieces hbytes
      have halone := (readFrame_cons pieces (c := ⟨msgLen :: taken, false, 0⟩) rfl).1
      rw [← hlength, List.drop_left] at hrest
      refine ⟨hrest, fun heap stack => ?_⟩
      rw [receive_eq_readFrame pieces heap stack ⟨msgLen :: taken, false, 0⟩, halone, hread,
        ← hlength]
      simp

/-- Nothing is passed on before all of the next frame has come. -/
theorem readFrame_of_nextFrame_none (pieces : Pieces) {c : Inbound} (hc : c.bytes = stream posts)
    (h : nextFrame posts = none) : (readFrame pieces c).1 = none := by
  induction posts with
  | nil => exact (readFrame_nil pieces hc).1
  | cons g posts ih =>
    obtain ⟨_ | ⟨msgLen, body⟩, era⟩ := g
    · exact ih hc h
    · have hshort := takeBytes_none (Option.map_eq_none_iff.mp h)
      have hbytes : c.bytes = msgLen :: stream (⟨body, era⟩ :: posts) := by
        rw [hc, stream_cons, stream_cons, List.cons_append]
      rw [(readFrame_cons pieces hbytes).1, if_neg fun hboth => absurd hboth.2 (by omega)]

/-! ## Whole frames -/

theorem nextFrame_whole (hf : Whole f.bytes) : nextFrame (f :: rest) = some (f, rest) := by
  obtain ⟨bytes, era⟩ := f
  obtain ⟨msgLen, body, rfl, hne, hlen⟩ := hf
  obtain ⟨m, hm⟩ : ∃ m, body.length = m + 1 :=
    Nat.exists_eq_add_one.mpr (List.length_pos_iff.mpr hne)
  rw [nextFrame, ← hlen, hm, takeBytes, if_neg (by simp [hm])]
  simp [hm, takeBytes]

/-- A frame that was written whole is taken as it was written, and nothing else. -/
theorem frameAt_whole (hf : posts[k]? = some f) (hwhole : Whole f.bytes) :
    frameAt k posts = some (f, posts.eraseIdx k) := by
  obtain ⟨hlt, rfl⟩ := List.getElem?_eq_some_iff.mp hf
  rw [frameAt, List.drop_eq_getElem_cons hlt, nextFrame_whole hwhole, Option.map_some,
    List.eraseIdx_eq_take_drop_succ]

theorem frameAt_of_getElem?_eq_none (h : posts[k]? = none) : frameAt k posts = none := by
  rw [frameAt, List.drop_eq_nil_of_le (List.getElem?_eq_none_iff.mp h)]
  rfl

/-- Where everything was written whole, what is taken is one of the writes. -/
theorem frameAt_eq (hwhole : ∀ g ∈ posts, Whole g.bytes) :
    frameAt k posts = (posts[k]?).map fun f => (f, posts.eraseIdx k) := by
  cases hf : posts[k]? with
  | none => exact frameAt_of_getElem?_eq_none hf
  | some f => exact frameAt_whole hf (hwhole f (List.mem_of_getElem? hf))

theorem whole_of_formatCreate {getpid : Int32} {req : Request} {payload : Option Payload}
    {sender : RequestSender} {frame : Frame}
    (h : formatCreate getpid req payload sender = some frame)
    (hfits : ∀ p ∈ payload, p.Fits) (buf : Nat → UInt8) : Whole (frame.sent buf) := by
  obtain ⟨body, hsent, hlen, htwo, -⟩ := formatCreate_sent h hfits buf
  have hle : (1 : UInt8) ≤ frame.len := UInt8.le_iff_toNat_le.mpr (by simp; omega)
  refine ⟨frame.len, body, hsent, List.length_pos_iff.mp (by omega), ?_⟩
  rw [UInt8.toNat_sub_of_le _ _ hle]
  exact Nat.eq_sub_of_add_eq hlen

end MeshNet
