import MeshNet.Format.Types

/-!
# Apps and the compression of messages

A node hosts `appsCount` apps. A message is compressed in place where it enters the mesh and
decompressed in place where an app takes it, both times by way of a local array of
`appMessageLen` bytes. The return codes of zlib are ignored: a stream or a text that does
not fit the array is cut off at its end.
-/

namespace MeshNet
open Library

structure App where
  nodeAddr : UInt8
  appAddr : UInt8
  deriving DecidableEq

/-- `node_app_fill_default`. -/
def nodeAppFillDefault (nodeAddr : UInt8) : List App :=
  (List.range appsCount).map fun i => ⟨nodeAddr, UInt8.ofNat i⟩

/-- The part of zlib in use: the complete stream `deflate` makes of a text, and all bytes that
`inflate` gets out of a stream, complete or cut off. -/
structure Zlib where
  deflate : List UInt8 → List UInt8
  inflate : List UInt8 → List UInt8

/-- What zlib documents: a stream that fits the array is undone, every stream starts with the
two bytes of the zlib header, and different texts have different streams. -/
structure Zlib.Lawful (z : Zlib) : Prop where
  inflate_deflate : ∀ text, (z.deflate text).length ≤ appMessageLen →
    z.inflate (z.deflate text) = text
  header : ∃ cmf flg, ∀ text, ∃ rest, z.deflate text = cmf :: flg :: rest
  injective : Function.Injective z.deflate

/-- `compress_message` and `decompress_message` copy the whole local array back, of which zlib
has written the first part. -/
def recode (code : List UInt8 → List UInt8) (b : Message) (a : AppPayload) : AppPayload :=
  let out := (code a.text).take appMessageLen
  { a with messageLen := UInt8.ofNat out.length, message := b.memcpy out }

def compressMessage (z : Zlib) := recode z.deflate

def decompressMessage (z : Zlib) := recode z.inflate

def nodeAppSetupDelivery (z : Zlib) (b : Message) (a : AppPayload) : AppPayload :=
  if a.messageLen ≠ 0 then compressMessage z b a else a

/-- Decompress a message and compare its checksum with the one its sender took. -/
def openMessage (z : Zlib) (b : Message) (a : AppPayload) : Bool × AppPayload :=
  if a.messageLen ≠ 0 then
    let opened := decompressMessage z b a
    (appCrc opened == opened.crc, opened)
  else (true, a)

/-- Whether the payload was accepted, and what is left of it. -/
def nodeAppHandleRequest (z : Zlib) (b : Message) (apps : List App) (a : AppPayload) :
    Bool × AppPayload :=
  match a.reqType with
  | .known .delivery =>
    if apps.any fun app => app.appAddr == a.addrTo then openMessage z b a else (false, a)
  | .known .broadcast | .known .unicast => openMessage z b a
  | .other .. => (false, a)

/-! ## Recoding a message -/

variable {z : Zlib} {b : Message} {a : AppPayload}

theorem fits_recode (code : List UInt8 → List UInt8) : (recode code b a).Fits := by
  simp only [AppPayload.fits_iff, recode, UInt8.toNat_ofNat', List.length_take, appMessageLen]
  omega

theorem text_recode (code : List UInt8 → List UInt8) :
    (recode code b a).text = (code a.text).take appMessageLen := by
  have hle : ((code a.text).take appMessageLen).length ≤ appMessageLen :=
    List.length_take_le _ _
  have hlen : (recode code b a).messageLen.toNat = ((code a.text).take appMessageLen).length := by
    simp only [appMessageLen] at hle
    simp only [recode, UInt8.toNat_ofNat', appMessageLen]
    omega
  rw [AppPayload.text, hlen]
  exact b.take_memcpy hle

theorem fits_setupDelivery (h : a.Fits) : (nodeAppSetupDelivery z b a).Fits := by
  unfold nodeAppSetupDelivery
  split
  · exact fits_recode _
  · exact h

@[simp] theorem id_setupDelivery : (nodeAppSetupDelivery z b a).id = a.id := by
  unfold nodeAppSetupDelivery
  split <;> rfl

/-! ## Texts across the mesh -/

/-- The payload `a` carries the message of `orig` in the form in which it crosses the mesh. -/
structure AppPayload.Carries (z : Zlib) (orig a : AppPayload) : Prop where
  reqType : a.reqType = orig.reqType
  addrFrom : a.addrFrom = orig.addrFrom
  addrTo : a.addrTo = orig.addrTo
  id : a.id = orig.id
  crc : a.crc = orig.crc
  fits : a.Fits
  text : a.text = (z.deflate orig.text).take appMessageLen

theorem carries_setupDelivery {orig : AppPayload} (h : orig.messageLen ≠ 0) :
    orig.Carries z (nodeAppSetupDelivery z b orig) := by
  rw [nodeAppSetupDelivery, if_pos h]
  exact ⟨rfl, rfl, rfl, rfl, rfl, fits_recode _, text_recode _⟩

/-- What fits the array of the stream still decodes to the whole text. -/
def Zlib.Survives (z : Zlib) (text : List UInt8) : Prop :=
  (z.inflate ((z.deflate text).take appMessageLen)).take appMessageLen = text

/-- A complete stream in the array is enough. -/
theorem Zlib.Lawful.survives (hz : z.Lawful) {text : List UInt8}
    (htext : text.length ≤ appMessageLen) (h : (z.deflate text).length ≤ appMessageLen) :
    z.Survives text := by
  rw [Zlib.Survives, List.take_of_length_le h, hz.inflate_deflate text h,
    List.take_of_length_le htext]

theorem Zlib.Lawful.carries_ne (hz : z.Lawful) {orig : AppPayload} (h : orig.Carries z a) :
    a.messageLen ≠ 0 := by
  intro hzero
  obtain ⟨cmf, flg, hheader⟩ := hz.header
  obtain ⟨rest, hrest⟩ := hheader orig.text
  have hlen := h.fits.length_text
  simp [h.text, hrest, hzero] at hlen

/-- What an app gets of a message: the original, exactly when its cut-off stream survives. -/
theorem openMessage_iff (hz : z.Lawful) {orig : AppPayload} (hfits : orig.Fits)
    (hcrc : orig.crc = appCrc orig) (h : orig.Carries z a) :
    ((openMessage z b a).1 = true ∧ (openMessage z b a).2.text = orig.text ∧
        (openMessage z b a).2.messageLen = orig.messageLen) ↔ z.Survives orig.text := by
  rw [openMessage, if_pos (hz.carries_ne h)]
  have htext : (decompressMessage z b a).text =
      (z.inflate ((z.deflate orig.text).take appMessageLen)).take appMessageLen := by
    rw [decompressMessage, text_recode, h.text]
  have hopened : (decompressMessage z b a).Fits := fits_recode _
  constructor
  · rintro ⟨-, hsame, -⟩
    rw [Zlib.Survives, ← htext, hsame]
  · intro hsurvives
    have hsame : (decompressMessage z b a).text = orig.text := htext.trans hsurvives
    have hlen : (decompressMessage z b a).messageLen = orig.messageLen := by
      apply UInt8.toNat_inj.mp
      rw [← hopened.length_text, ← hfits.length_text, hsame]
    have hheader : (decompressMessage z b a).header = orig.header := by
      show [a.reqType.toByte, a.addrFrom, a.addrTo] ++ bytes16 a.id ++ [_] = _
      rw [h.reqType, h.addrFrom, h.addrTo, h.id, hlen]
      rfl
    have hsum : appCrc (decompressMessage z b a) = (decompressMessage z b a).crc := by
      rw [hopened.appCrc, hheader, hsame, ← hfits.appCrc, ← hcrc]
      exact h.crc.symm
    exact ⟨beq_iff_eq.mpr hsum, hsame, hlen⟩

/-! ## Stored blocks

What zlib makes of a text that does not get shorter: the header, one stored block and the
checksum of the text, its most significant byte first. -/

def adler32 (text : List UInt8) : Nat × Nat :=
  text.foldl (fun s b => ((s.1 + b.toNat) % 65521, (s.2 + s.1 + b.toNat) % 65521)) (1, 0)

def Zlib.stored : Zlib where
  deflate text :=
    let len := UInt16.ofNat text.length
    let sum := adler32 text
    [0x78, 0x9C, 0x01] ++ bytes16 len ++ bytes16 (~~~ len) ++ text ++
      (bytes16 (UInt16.ofNat sum.2)).reverse ++ (bytes16 (UInt16.ofNat sum.1)).reverse
  inflate
    | _ :: _ :: _ :: lo :: hi :: _ :: _ :: rest => rest.take (word16 lo hi).toNat
    | _ => []

theorem Zlib.stored_lawful : Zlib.stored.Lawful where
  inflate_deflate text h := by
    have hlen : text.length < 65536 := by
      simp only [stored, appMessageLen, List.length_append, List.length_cons, bytes16_length,
        List.length_reverse] at h
      omega
    have hword : (UInt16.ofNat text.length).toNat = text.length := by
      rw [UInt16.toNat_ofNat']
      omega
    change ((text ++ _) ++ _).take (word16 _ _).toNat = text
    rw [word16_bytes16, hword, List.append_assoc, List.take_left]
  header := ⟨0x78, 0x9C, fun text => ⟨_, rfl⟩⟩
  injective text text' h := by
    have hlen : text.length = text'.length := by
      have := congrArg List.length h
      simpa [stored] using this
    simp only [stored, hlen, List.append_assoc, List.append_cancel_left_eq] at h
    exact (List.append_inj h hlen).1

end MeshNet
