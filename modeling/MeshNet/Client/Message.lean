import Mathlib.Data.List.GetD
import Mathlib.Data.List.Induction
import MeshNet.Client.Options

/-!
# The message on the command line

The text behind `-a` is copied to a local array and from there to the packet. A text that is too
long for the array is cut by `strncpy`, which does not end it: whether the array then holds a
string depends on its last byte, which only a text of just the right length sets.
-/

namespace MeshNet
open Library

namespace Client

variable {m : Message} {s : Scratch} {texts : List CString} {text arg last : CString}
  {behind : List UInt8}

/-! ## One text -/

/-- The byte at the end of the array, where the zero of the longest text that fits is. -/
def endByte (m : Message) : UInt8 := m.bytes.getD (appMessageLen - 1) 0

theorem memcpy_bytes (m : Message) (bs : List UInt8) :
    (m.memcpy bs).bytes = bs.take appMessageLen ++ m.bytes.drop bs.length := rfl

theorem strcpy_bytes (h : text.bytes.length ≤ 149) :
    (strcpy m text).bytes = text.bytes ++ 0 :: m.bytes.drop (text.bytes.length + 1) := by
  have hfits : (text.bytes ++ [0]).length ≤ appMessageLen := by
    rw [List.length_append, List.length_singleton]
    exact Nat.succ_le_succ h
  rw [strcpy, memcpy_bytes, List.take_of_length_le hfits]
  simp

theorem strncpy_bytes (h : 149 < text.bytes.length) :
    (strncpy m text 149).bytes = text.bytes.take 149 ++ [endByte m] := by
  have htake : (text.bytes ++ List.replicate 149 0).take 149 = text.bytes.take 149 :=
    List.take_append_of_le_length (Nat.le_of_lt h)
  have hlen : (text.bytes.take 149).length = 149 := List.length_take_of_le (Nat.le_of_lt h)
  have hdrop : m.bytes.drop 149 = [endByte m] := by
    have hbytes := m.length_bytes
    apply List.ext_getElem
    · simp [hbytes]
    · intro i hi _
      have hzero : i = 0 := by
        simp [hbytes] at hi
        omega
      subst hzero
      simp [endByte, hbytes]
  rw [strncpy, memcpy_bytes, htake, hlen, hdrop,
    List.take_of_length_le (show (text.bytes.take 149).length ≤ 150 by omega)]

theorem copyMessage_long (h : 149 < text.bytes.length) :
    copyMessage s text = ⟨strncpy s.message text 149, s.touched ++ [149]⟩ := if_pos h

theorem copyMessage_short (h : text.bytes.length ≤ 149) :
    copyMessage s text = ⟨strcpy s.message text, s.touched ++ [text.bytes.length + 1]⟩ :=
  if_neg (Nat.not_lt.mpr h)

/-- Only a text that fits with no byte to spare changes the end of the array. -/
theorem endByte_copyMessage :
    endByte (copyMessage s text).message =
      if text.bytes.length = 149 then 0 else endByte s.message := by
  rcases Nat.lt_or_ge 149 text.bytes.length with hlong | hshort
  · have hlen : (text.bytes.take 149).length = 149 := List.length_take_of_le (Nat.le_of_lt hlong)
    rw [copyMessage_long hlong, if_neg (by omega)]
    change (strncpy s.message text 149).bytes.getD 149 0 = _
    rw [strncpy_bytes hlong, List.getD_append_right _ _ _ _ (by omega), hlen]
    rfl
  · rw [copyMessage_short hshort]
    change (strcpy s.message text).bytes.getD 149 0 = _
    rw [strcpy_bytes hshort, List.getD_append_right _ _ _ _ hshort]
    split_ifs with hlen
    · rw [hlen]
      rfl
    · obtain ⟨k, hk⟩ : ∃ k, 149 - text.bytes.length = k + 1 :=
        ⟨148 - text.bytes.length, by omega⟩
      rw [hk, List.getD_cons_succ, endByte, List.getD_eq_getElem?_getD, List.getElem?_drop,
        show text.bytes.length + 1 + k = appMessageLen - 1 by simp; omega,
        ← List.getD_eq_getElem?_getD]

theorem touched_copyMessage (h : ∀ n ∈ s.touched, n ≤ appMessageLen) :
    ∀ n ∈ (copyMessage s text).touched, n ≤ appMessageLen := by
  unfold copyMessage
  grind

/-! ## One text over the other -/

theorem copied_append (us : List CString) :
    copied m (us ++ [last]) = copyMessage (copied m us) last := by
  rw [copied, List.foldl_append]
  rfl

theorem endByte_copied :
    endByte (copied m texts).message = 0 ↔
      endByte m = 0 ∨ ∃ text ∈ texts, text.bytes.length = 149 := by
  induction texts using List.reverseRecOn with
  | nil => simp [copied]
  | append_singleton us last ih =>
    rw [copied_append, endByte_copyMessage]
    split_ifs with hlen
    · simp [hlen]
    · rw [ih]
      simp [hlen]

theorem touched_copied : ∀ n ∈ (copied m texts).touched, n ≤ appMessageLen := by
  induction texts using List.reverseRecOn with
  | nil => exact nofun
  | append_singleton us last ih =>
    rw [copied_append]
    exact touched_copyMessage ih

/-! ## The string in the array -/

/-- The array holds a string that ends within it. -/
def Ended (m : Message) (texts : List CString) (last : CString) : Prop :=
  last.bytes.length ≤ appMessageLen - 1 ∨ endByte m = 0 ∨
    ∃ text ∈ texts, text.bytes.length = appMessageLen - 1

theorem takeWhile_text {bs rest : List UInt8} (h : 0 ∉ bs) :
    (bs ++ 0 :: rest).takeWhile (· ≠ 0) = bs := by
  rw [List.takeWhile_append_of_pos]
  · simp
  · intro b hb
    have hne : b ≠ 0 := by
      rintro rfl
      exact h hb
    simpa using hne

/-- What the last copy leaves: the text, cut to what fits, and behind a text that was cut the old
end of the array. -/
theorem message_copied (m : Message) (us : List CString) (last : CString) :
    ((last.bytes.length ≤ 149 ∧ ∃ rest,
        (copied m (us ++ [last])).message.bytes = last.bytes.take 149 ++ 0 :: rest) ∨
      (149 < last.bytes.length ∧ (copied m (us ++ [last])).message.bytes =
        last.bytes.take 149 ++ [endByte (copied m us).message])) := by
  rw [copied_append]
  rcases Nat.lt_or_ge 149 last.bytes.length with hlong | hshort
  · rw [copyMessage_long hlong]
    exact .inr ⟨hlong, strncpy_bytes hlong⟩
  · rw [copyMessage_short hshort, List.take_of_length_le hshort]
    exact .inl ⟨hshort, _, strcpy_bytes hshort⟩

theorem strlen_copied (behind : List UInt8) (us : List CString) (h : Ended m us last) :
    strlen (copied m (us ++ [last])).message behind = min last.bytes.length 149 ∧
      (copied m (us ++ [last])).message.bytes.take (min last.bytes.length 149) =
        last.bytes.take 149 := by
  have hzero : 0 ∉ last.bytes.take 149 := fun hmem => last.nonzero (List.mem_of_mem_take hmem)
  have hlen : (last.bytes.take 149).length = min last.bytes.length 149 := by
    rw [List.length_take, Nat.min_comm]
  have hrest : ∃ rest,
      (copied m (us ++ [last])).message.bytes = last.bytes.take 149 ++ 0 :: rest := by
    rcases message_copied m us last with ⟨-, hrest⟩ | ⟨hlong, hbytes⟩
    · exact hrest
    · have hend : endByte (copied m us).message = 0 := by
        apply endByte_copied.mpr
        exact h.resolve_left (Nat.not_le.mpr hlong)
      exact ⟨[], by rw [hbytes, hend]⟩
  obtain ⟨rest, hrest⟩ := hrest
  constructor
  · rw [strlen, hrest, List.append_assoc, List.cons_append, takeWhile_text hzero, hlen]
  · rw [hrest, ← hlen, List.take_left]

/-- A text that is cut and not ended is read on past the array. -/
theorem strlen_not_ended (behind : List UInt8) (us : List CString) (h : ¬ Ended m us last) :
    appMessageLen ≤ strlen (copied m (us ++ [last])).message behind := by
  unfold Ended at h
  rw [not_or, Nat.not_le] at h
  rcases message_copied m us last with ⟨hshort, -⟩ | ⟨hlong, hbytes⟩
  · exact absurd hshort (Nat.not_le.mpr h.1)
  · have hend : endByte (copied m us).message ≠ 0 := fun hz => h.2 (endByte_copied.mp hz)
    have hall : ∀ b ∈ (copied m (us ++ [last])).message.bytes, decide (b ≠ 0) = true := by
      intro b hb
      rw [hbytes, List.mem_append, List.mem_singleton] at hb
      rcases hb with hb | rfl
      · apply decide_eq_true
        rintro rfl
        exact last.nonzero (List.mem_of_mem_take hb)
      · exact decide_eq_true hend
    rw [strlen, List.takeWhile_append_of_pos hall, List.length_append, Message.length_bytes]
    exact Nat.le_add_right _ _

/-! ## The message of the packet -/

/-- The packet carries the text, clipped to what the array has room for, and the array was neither
read nor written outside its bounds. -/
def Clipped (text : CString) (o : Outcome) : Prop :=
  (∃ p, o.payload = some (.packet p) ∧
    p.appPayload.messageLen.toNat = min text.bytes.length (appMessageLen - 1) ∧
    p.appPayload.text = text.bytes.take p.appPayload.messageLen.toNat) ∧
  ∀ n ∈ o.touched, n ≤ appMessageLen

/-- The text is the one that was copied last, or one that is clipped to the same, and what was
copied last ends within the array. -/
def Kept (m : Message) (texts : List CString) (text : CString) : Prop :=
  ∀ last ∈ texts.getLast?,
    text.bytes.take (appMessageLen - 1) = last.bytes.take (appMessageLen - 1) ∧
      Ended m texts.dropLast last

/-- The packet of the outcome has its message from the array. -/
def FromArray (o : Outcome) (m : Scratch) (behind : List UInt8) : Prop :=
  ∃ a p, o.payload = some (.packet p) ∧
    p.appPayload.messageLen = (takeMessage a m behind).1.messageLen ∧
    p.appPayload.message = (takeMessage a m behind).1.message ∧
    o.touched = (takeMessage a m behind).2

theorem take_eq_take_iff {xs ys : List UInt8} (n : Nat) :
    (min ys.length n = min xs.length n ∧ ys.take n = xs.take (min ys.length n)) ↔
      xs.take n = ys.take n := by
  have hself : xs.take (min xs.length n) = xs.take n := by
    rw [← List.take_take, List.take_of_length_le]
    exact List.length_take_le' n xs
  constructor
  · rintro ⟨hlen, htake⟩
    rw [htake, hlen, hself]
  · intro h
    have hlen : min n xs.length = min n ys.length := by
      rw [← List.length_take, ← List.length_take, h]
    rw [Nat.min_comm n, Nat.min_comm n] at hlen
    refine ⟨hlen.symm, ?_⟩
    rw [← hlen, hself, h]

/-- The packet that takes a text that ends in the array. -/
theorem takeMessage_ended (a : AppPayload) (behind : List UInt8) (us : List CString)
    (h : Ended m us last) :
    let t := takeMessage a (copied m (us ++ [last])) behind
    t.1.messageLen.toNat = min last.bytes.length 149 ∧ t.1.text = last.bytes.take 149 ∧
      ∀ n ∈ t.2, n ≤ appMessageLen := by
  obtain ⟨hstrlen, hbytes⟩ := strlen_copied behind us h
  intro t
  have hn : t.1.messageLen.toNat = min last.bytes.length 149 := by
    change (UInt8.ofNat (strlen (copied m (us ++ [last])).message behind)).toNat = _
    rw [hstrlen, UInt8.toNat_ofNat']
    omega
  have hsource : ((copied m (us ++ [last])).message.bytes ++ behind).take t.1.messageLen.toNat =
      last.bytes.take 149 := by
    rw [hn, List.take_append_of_le_length, hbytes]
    rw [Message.length_bytes]
    exact Nat.le_trans (Nat.min_le_right _ _) (by decide)
  have hlen : (last.bytes.take 149).length = t.1.messageLen.toNat := by
    rw [hn, List.length_take, Nat.min_comm]
  refine ⟨hn, ?_, ?_⟩
  · change (a.message.memcpy (((copied m (us ++ [last])).message.bytes ++ behind).take
      t.1.messageLen.toNat)).bytes.take t.1.messageLen.toNat = _
    rw [hsource, ← hlen]
    apply Message.take_memcpy
    rw [hlen, hn]
    exact Nat.le_trans (Nat.min_le_right _ _) (by decide)
  · intro n hmem
    have hends : n ∈ (copied m (us ++ [last])).touched ∨
        n = strlen (copied m (us ++ [last])).message behind + 1 ∨ n = t.1.messageLen.toNat := by
      simpa [t, takeMessage] using hmem
    rcases hends with hcopies | rfl | rfl
    · exact touched_copied n hcopies
    · rw [hstrlen]
      exact Nat.succ_le_succ (Nat.min_le_right _ _)
    · rw [hn]
      exact Nat.le_trans (Nat.min_le_right _ _) (by decide)

theorem clipped_iff_of_fromArray {o : Outcome} (h : FromArray o (copied m texts) behind)
    (htext : text ∈ texts) : Clipped text o ↔ Kept m texts text := by
  obtain ⟨us, last, rfl⟩ : ∃ us last, texts = us ++ [last] := by
    rcases List.eq_nil_or_concat texts with rfl | ⟨us, last, hlast⟩
    · cases htext
    · exact ⟨us, last, by simpa using hlast⟩
  obtain ⟨a, p, hpayload, hlen, hmessage, htouched⟩ := h
  have hkept : Kept m (us ++ [last]) text ↔
      text.bytes.take 149 = last.bytes.take 149 ∧ Ended m us last := by
    simp [Kept]
  rw [hkept]
  by_cases hended : Ended m us last
  · obtain ⟨hn, htext, hbounds⟩ := takeMessage_ended a behind us hended
    have hptext : p.appPayload.text = last.bytes.take 149 := by
      rw [← htext, AppPayload.text, AppPayload.text, hlen, hmessage]
    rw [← hlen] at hn
    rw [← htouched] at hbounds
    rw [← take_eq_take_iff, ← hptext, ← hn]
    constructor
    · rintro ⟨⟨q, hq, hqlen, hqtext⟩, -⟩
      rw [hpayload] at hq
      cases hq
      exact ⟨⟨hqlen, hqtext⟩, hended⟩
    · rintro ⟨⟨hqlen, hqtext⟩, -⟩
      exact ⟨⟨p, hpayload, hqlen, hqtext⟩, hbounds⟩
  · apply iff_of_false
    · rintro ⟨-, hbounds⟩
      have hover := hbounds (strlen (copied m (us ++ [last])).message behind + 1) (by
        rw [htouched]
        simp [takeMessage])
      have := strlen_not_ended behind us hended
      omega
    · rintro ⟨-, h⟩
      exact hended h

end Client

end MeshNet
