import MeshNet.Format.Parse

/-!
# Where the parser reads and stores

The only check in front of `format_parse` compares the declared length with the number of
bytes received. The parser then walks as far as its layout takes it, and copies as many
message bytes as the embedded length says. It stays within the received bytes and within the
message array exactly on the frames that are as long as their layout.
-/

namespace MeshNet
open Library Reader

/-- Every position read was received, and every message cell stored to exists. -/
def InBounds (w : Walk) (receivedBytes : Nat) : Prop :=
  (∀ i ∈ w.reads, i < receivedBytes) ∧ ∀ i ∈ w.stores, i < appMessageLen

instance (w : Walk) (n : Nat) : Decidable (InBounds w n) := by
  unfold InBounds
  infer_instance

/-- Whether `n` bytes starting `mem` are as many as the layout of their request takes, and
their message, if they have one, is not longer than the array. -/
def WellSized (mem : Nat → UInt8) (n : Nat) : Prop :=
  match (Packed.ofByte (mem 0) : Packed Request) with
  | .known req =>
    match req.layout with
    | some .addr => 3 ≤ n
    | some .notify => 5 ≤ n
    | some .update => 9 ≤ n
    | some .packet => 16 + (mem 11).toNat ≤ n ∧ (mem 11).toNat ≤ appMessageLen
    | some .contest => 12 + (mem 9).toNat ≤ n ∧ (mem 9).toNat ≤ appMessageLen
    | none => True
  | .other .. => True

/-! ## The trace of each reader -/

variable {mem : Nat → UInt8} {heap : Message} {n : Nat}

theorem inBounds_byte (w : Walk) :
    InBounds (byte mem w).2 n ↔ InBounds w n ∧ w.pos < n := by
  simp only [byte_apply, InBounds, List.mem_append, List.mem_singleton, or_imp, forall_and,
    forall_eq]
  tauto

theorem inBounds_word (w : Walk) :
    InBounds (word mem w).2 n ↔ InBounds w n ∧ w.pos + 1 < n := by
  change InBounds (byte mem (byte mem w).2).2 n ↔ _
  rw [inBounds_byte, inBounds_byte, byte_apply, and_assoc]
  exact and_congr_right fun _ => ⟨And.right, fun h => ⟨Nat.lt_of_succ_lt h, h⟩⟩

@[simp] theorem inBounds_pos (w : Walk) (p : Nat) :
    InBounds { w with pos := p } n ↔ InBounds w n := Iff.rfl

theorem inBounds_readMessage (len : UInt8) (w : Walk) :
    InBounds (readMessage heap len mem w).2 n ↔
      InBounds w n ∧ (len = 0 ∨ w.pos + len.toNat ≤ n) ∧ len.toNat ≤ appMessageLen := by
  by_cases h : len = 0
  · simp [readMessage, h]
  · have hpos : 0 < len.toNat := by
      rcases Nat.eq_zero_or_pos len.toNat with hz | hz
      · exact absurd (UInt8.toNat_inj.mp hz) h
      · exact hz
    have hreads : (∀ i < len.toNat, w.pos + i < n) ↔ w.pos + len.toNat ≤ n :=
      ⟨fun hi => by have := hi (len.toNat - 1) (by omega); omega, fun _ _ _ => by omega⟩
    have hstores : (∀ i < len.toNat, i < 150) ↔ len.toNat ≤ 150 :=
      ⟨fun hi => by have := hi (len.toNat - 1) (by omega); omega, fun _ _ _ => by omega⟩
    simp only [readMessage, ne_eq, h, not_false_eq_true, if_true, bind_apply, bytes_apply,
      store_apply, pure_apply, InBounds, List.mem_append, List.mem_map, List.mem_range, or_imp,
      forall_and, forall_exists_index, and_imp, forall_apply_eq_imp_iff₂, hreads, hstores,
      false_or, appMessageLen]
    tauto

theorem readMessage_pos (len : UInt8) (w : Walk) :
    (readMessage heap len mem w).2.pos = w.pos + len.toNat := by
  by_cases h : len = 0 <;> simp [readMessage, h]

theorem formatAppParseMessage_messageLen (w : Walk) :
    (formatAppParseMessage heap mem w).1.messageLen = mem (w.pos + 5) := by
  simp [formatAppParseMessage, word, Nat.add_assoc]

/-- The application payload keeps in bounds where its whole layout, checksum included, was
received and the message fits. -/
theorem inBounds_formatAppParseMessage (w : Walk) :
    InBounds (formatAppParseMessage heap mem w).2 n ↔
      InBounds w n ∧ w.pos + 8 + (mem (w.pos + 5)).toNat ≤ n ∧
        (mem (w.pos + 5)).toNat ≤ appMessageLen := by
  simp only [formatAppParseMessage, bind_apply, map_apply, pure_apply, inBounds_word,
    inBounds_readMessage, readMessage_pos, inBounds_byte]
  simp only [word, bind_apply, byte_apply, pure_apply, Nat.add_assoc, Nat.reduceAdd]
  constructor
  · rintro ⟨⟨⟨⟨⟨⟨⟨hw, -⟩, -⟩, -⟩, -⟩, -⟩, -, hfits⟩, hcrc⟩
    exact ⟨hw, by omega, hfits⟩
  · rintro ⟨hw, hlen, hfits⟩
    exact ⟨⟨⟨⟨⟨⟨⟨hw, by omega⟩, by omega⟩, by omega⟩, by omega⟩, by omega⟩, by omega, hfits⟩,
      by omega⟩

theorem inBounds_parseAddrPayload (w : Walk) :
    InBounds (parseAddrPayload mem w).2 n ↔ InBounds w n ∧ 3 ≤ n := by
  change InBounds (byte mem { w with pos := 2 }).2 n ↔ _
  rw [inBounds_byte, inBounds_pos]
  exact Iff.rfl

theorem inBounds_parseNotifyPayload (w : Walk) :
    InBounds (parseNotifyPayload mem w).2 n ↔ InBounds w n ∧ 5 ≤ n := by
  change InBounds (word mem (byte mem { w with pos := 2 }).2).2 n ↔ _
  rw [inBounds_word, inBounds_byte, inBounds_pos, byte_apply, and_assoc]
  exact and_congr_right fun _ =>
    ⟨And.right, fun h => ⟨Nat.lt_of_lt_of_le (show 2 < 5 by decide) h, h⟩⟩

theorem inBounds_parseNodeUpdatePayload (w : Walk) :
    InBounds (parseNodeUpdatePayload mem w).2 n ↔ InBounds w n ∧ 9 ≤ n := by
  simp only [parseNodeUpdatePayload, dword, bind_apply, map_apply, pure_apply, inBounds_byte,
    inBounds_word, skipBase, seek_apply, inBounds_pos]
  simp only [word, bind_apply, byte_apply, pure_apply]
  constructor
  · rintro ⟨⟨⟨⟨⟨⟨hw, -⟩, -⟩, -⟩, -⟩, -⟩, h⟩
    exact ⟨hw, h⟩
  · rintro ⟨hw, h⟩
    exact ⟨⟨⟨⟨⟨⟨hw, by omega⟩, by omega⟩, by omega⟩, by omega⟩, by omega⟩, by omega⟩

/-- The packet's own checksum lies behind the application payload; past 247 the move to it
wraps, but by then the message does not fit either. -/
theorem inBounds_parseRoutePayload (w : Walk) :
    InBounds (parseRoutePayload heap mem w).2 n ↔
      InBounds w n ∧ 16 + (mem 11).toNat ≤ n ∧ (mem 11).toNat ≤ appMessageLen := by
  simp only [parseRoutePayload, bind_apply, map_apply, pure_apply, inBounds_byte,
    inBounds_word, skipBase, seek_apply, inBounds_pos, position_apply,
    inBounds_formatAppParseMessage]
  simp only [byte_apply, formatAppMessageLen, formatAppParseMessage_messageLen, Nat.reduceAdd,
    UInt8.toNat_ofNat']
  constructor
  · rintro ⟨⟨⟨⟨⟨⟨hw, -⟩, -⟩, -⟩, -⟩, -, hfits⟩, hcrc⟩
    simp only [appMessageLen] at hfits
    exact ⟨hw, by omega, hfits⟩
  · rintro ⟨hw, hlen, hfits⟩
    simp only [appMessageLen] at hfits
    exact ⟨⟨⟨⟨⟨⟨hw, by omega⟩, by omega⟩, by omega⟩, by omega⟩, by omega, hfits⟩, by omega⟩

theorem inBounds_parseUnicastContestPayload (w : Walk) :
    InBounds (parseUnicastContestPayload heap mem w).2 n ↔
      InBounds w n ∧ 12 + (mem 9).toNat ≤ n ∧ (mem 9).toNat ≤ appMessageLen := by
  simp only [parseUnicastContestPayload, bind_apply, map_apply, pure_apply, inBounds_byte,
    skipBase, seek_apply, inBounds_pos, inBounds_formatAppParseMessage]
  simp only [byte_apply, Nat.reduceAdd]
  constructor
  · rintro ⟨⟨⟨hw, -⟩, -⟩, hlen, hfits⟩
    exact ⟨hw, hlen, hfits⟩
  · rintro ⟨hw, hlen, hfits⟩
    exact ⟨⟨⟨hw, by omega⟩, by omega⟩, hlen, hfits⟩

/-! ## All frames -/

theorem inBounds_start : InBounds (byte mem {}).2 n ↔ 1 ≤ n := by
  rw [inBounds_byte]
  have hnone : InBounds {} n := ⟨nofun, nofun⟩
  exact ⟨fun h => h.2, fun h => ⟨hnone, h⟩⟩

/-- The trace of the whole parser, by the layout the request byte selects. -/
theorem inBounds_formatParse (hn : 1 ≤ n) :
    InBounds (formatParse heap mem {}).2 n ↔ WellSized mem n := by
  have hstart : InBounds (byte mem {}).2 n := inBounds_start.mpr hn
  simp only [formatParse, bind_apply, map_apply, WellSized]
  rw [show (byte mem {}).1 = mem 0 from rfl]
  cases (Packed.ofByte (mem 0) : Packed Request) with
  | other code outside => simpa using hstart
  | known req =>
    cases req <;>
      simp only [bind_apply, pure_apply, Request.layout, inBounds_parseAddrPayload,
        inBounds_parseNotifyPayload, inBounds_parseNodeUpdatePayload,
        inBounds_parseRoutePayload, inBounds_parseUnicastContestPayload, hstart, true_and]

/-- A frame too short to hold its length byte is too short for its layout, so what lies behind
the received bytes has no say. -/
theorem wellSized_congr {mem' : Nat → UInt8} (hn : 1 ≤ n) (h : ∀ i < n, mem i = mem' i) :
    WellSized mem n ↔ WellSized mem' n := by
  unfold WellSized
  rw [h 0 hn]
  cases (Packed.ofByte (mem' 0) : Packed Request) with
  | other code outside => rfl
  | known req =>
    rcases Nat.lt_or_ge 11 n with h11 | h11
    · rw [h 11 h11, h 9 (by omega)]
    · rcases Nat.lt_or_ge 9 n with h9 | h9
      · rw [h 9 h9]
        cases req <;> simp only [Request.layout] <;> omega
      · cases req <;> simp only [Request.layout] <;> omega

/-- The parser keeps within the received bytes and the message array exactly on the accepted
frames that are as long as their layout and whose message fits. -/
theorem formatParse_inBounds_iff (bs : List UInt8) (msgLen : UInt8) (stack : Nat → UInt8)
    (heap : Message) (h : formatIsMessageCorrect bs.length (msgLen - 1) = true) :
    InBounds (formatParse heap (received bs stack) {}).2 bs.length ↔
      WellSized (fun i => bs.getD i 0) bs.length := by
  have hlen : 1 ≤ bs.length := by
    unfold formatIsMessageCorrect at h
    split at h
    · omega
    · cases h
  rw [inBounds_formatParse hlen]
  exact wellSized_congr hlen fun i hi => by simp [received, List.getD_eq_getElem?_getD, hi]

/-- A packet that announces 255 message bytes is accepted, read past its end and stored past
the array. -/
theorem formatParse_overrun :
    ¬ ∀ (bs : List UInt8) (msgLen : UInt8) (stack : Nat → UInt8) (heap : Message),
      formatIsMessageCorrect bs.length (msgLen - 1) = true →
        InBounds (formatParse heap (received bs stack) {}).2 bs.length := by
  intro h
  have hlast := h [4, 1, 0, 1, 0, 19, 0, 0, 0, 0, 0, 255, 0, 0, 0, 0] 17 (fun _ => 0) .zero
    (by decide)
  revert hlast
  decide +kernel

theorem formatParse_inBounds_iff_ping :
    InBounds (formatParse .zero (received [2, 0, 7] fun _ => 0) {}).2 3 ↔
      WellSized (fun i => [2, 0, 7].getD i 0) 3 :=
  formatParse_inBounds_iff [2, 0, 7] 4 (fun _ => 0) .zero (by decide)

end MeshNet
