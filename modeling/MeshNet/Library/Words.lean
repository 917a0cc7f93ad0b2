import Mathlib.Data.List.Basic

/-!
# Bytes of words and of packed enumerations

How a little-endian machine lays out a 16- or 32-bit word, and how an enumeration of one
byte is stored. A byte read back need not be the code of any enumerator, so what a packed
enumeration variable holds is either an enumerator or a byte outside the enumeration.
-/

namespace MeshNet.Library

/-! ## Little-endian words -/

def bytes16 (x : UInt16) : List UInt8 :=
  [UInt8.ofNat (x.toNat % 256), UInt8.ofNat (x.toNat / 256)]

def word16 (lo hi : UInt8) : UInt16 := UInt16.ofNat (lo.toNat + 256 * hi.toNat)

def bytes32 (x : UInt32) : List UInt8 :=
  [UInt8.ofNat (x.toNat % 256), UInt8.ofNat (x.toNat / 256 % 256),
   UInt8.ofNat (x.toNat / 65536 % 256), UInt8.ofNat (x.toNat / 16777216)]

def word32 (b0 b1 b2 b3 : UInt8) : UInt32 :=
  UInt32.ofNat (b0.toNat + 256 * b1.toNat + 65536 * b2.toNat + 16777216 * b3.toNat)

@[simp] theorem bytes16_length (x : UInt16) : (bytes16 x).length = 2 := rfl

@[simp] theorem bytes32_length (x : UInt32) : (bytes32 x).length = 4 := rfl

@[simp] theorem word16_bytes16 (x : UInt16) :
    word16 (UInt8.ofNat (x.toNat % 256)) (UInt8.ofNat (x.toNat / 256)) = x := by
  apply UInt16.toNat_inj.mp
  have := x.toNat_lt
  simp only [word16, UInt8.toNat_ofNat', UInt16.toNat_ofNat']
  omega

@[simp] theorem word32_bytes32 (x : UInt32) :
    word32 (UInt8.ofNat (x.toNat % 256)) (UInt8.ofNat (x.toNat / 256 % 256))
      (UInt8.ofNat (x.toNat / 65536 % 256)) (UInt8.ofNat (x.toNat / 16777216)) = x := by
  apply UInt32.toNat_inj.mp
  have := x.toNat_lt
  simp only [word32, UInt8.toNat_ofNat', UInt32.toNat_ofNat']
  omega

@[simp] theorem bytes16_word16 (lo hi : UInt8) : bytes16 (word16 lo hi) = [lo, hi] := by
  have hlo := lo.toNat_lt
  have hhi := hi.toNat_lt
  simp only [bytes16, word16, UInt16.toNat_ofNat', List.cons.injEq, and_true]
  constructor <;> apply UInt8.toNat_inj.mp <;> simp only [UInt8.toNat_ofNat'] <;> omega

@[simp] theorem bytes32_word32 (b₀ b₁ b₂ b₃ : UInt8) :
    bytes32 (word32 b₀ b₁ b₂ b₃) = [b₀, b₁, b₂, b₃] := by
  have h₀ := b₀.toNat_lt
  have h₁ := b₁.toNat_lt
  have h₂ := b₂.toNat_lt
  have h₃ := b₃.toNat_lt
  simp only [bytes32, word32, UInt32.toNat_ofNat', List.cons.injEq, and_true]
  refine ⟨?_, ?_, ?_, ?_⟩ <;> apply UInt8.toNat_inj.mp <;> simp only [UInt8.toNat_ofNat'] <;> omega

/-! ## Packed enumerations -/

/-- The enumerators of a one-byte enumeration, listed so that each stands at its code. -/
class Enumeration (ε : Type) where
  values : List ε
  code : ε → UInt8
  listed : ∀ e, values[(code e).toNat]? = some e
  placed : ∀ i (h : i < values.length), (code values[i]).toNat = i

/-- What a one-byte enumeration variable can hold: an enumerator, or a byte that is the
code of none. -/
inductive Packed (ε : Type) [Enumeration ε] where
  | known (e : ε)
  | other (code : UInt8) (outside : (Enumeration.values (ε := ε)).length ≤ code.toNat)
  deriving DecidableEq

namespace Packed

variable {ε : Type} [Enumeration ε]

def toByte : Packed ε → UInt8
  | known e => Enumeration.code e
  | other code _ => code

def ofByte (b : UInt8) : Packed ε :=
  match h : (Enumeration.values (ε := ε))[b.toNat]? with
  | some e => known e
  | none => other b (List.getElem?_eq_none_iff.mp h)

theorem ofByte_eq_known {b : UInt8} {e : ε}
    (h : (Enumeration.values (ε := ε))[b.toNat]? = some e) : ofByte b = known e := by
  unfold ofByte
  split <;> simp_all

@[simp] theorem ofByte_toByte (x : Packed ε) : ofByte x.toByte = x := by
  cases x with
  | known e => exact ofByte_eq_known (Enumeration.listed e)
  | other code outside =>
    have hnone : (Enumeration.values (ε := ε))[code.toNat]? = none :=
      List.getElem?_eq_none_iff.mpr outside
    unfold ofByte toByte
    split <;> simp_all

@[simp] theorem toByte_ofByte (b : UInt8) : (ofByte b : Packed ε).toByte = b := by
  unfold ofByte
  split
  · rename_i e h
    obtain ⟨hlt, rfl⟩ := List.getElem?_eq_some_iff.mp h
    exact UInt8.toNat_inj.mp (Enumeration.placed b.toNat hlt)
  · rfl

end Packed

end MeshNet.Library
