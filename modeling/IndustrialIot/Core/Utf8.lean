import Mathlib.Data.List.Basic

/-!
# Cutting UTF-8 byte strings

Validity is the core library's, on lists of bytes. A prefix of a valid string is
valid exactly when the cut falls in front of a byte that starts a character.
-/

namespace IndustrialIot.Utf8

/-- The bytes are the UTF-8 encoding of some characters. -/
def Valid (bs : List UInt8) : Prop := bs.toByteArray.IsValidUTF8

instance (bs : List UInt8) : Decidable (Valid bs) :=
  inferInstanceAs (Decidable bs.toByteArray.IsValidUTF8)

theorem valid_nil : Valid [] := ByteArray.isValidUTF8_empty

private theorem toByteArray_take (bs : List UInt8) (n : Nat) :
    (bs.take n).toByteArray = bs.toByteArray.extract 0 n := by
  apply ByteArray.ext
  simp

/-- A proper prefix is valid exactly when the next byte starts a character. -/
theorem valid_take_iff {bs : List UInt8} (h : Valid bs) {n : Nat} (hn : n < bs.length) :
    Valid (bs.take n) ↔ bs[n].IsUTF8FirstByte := by
  have hp := String.Pos.Raw.isValid_iff_isUTF8FirstByte
    (s := String.fromUTF8 bs.toByteArray h) (p := ⟨n⟩)
  have hlt : (⟨n⟩ : String.Pos.Raw) < (String.fromUTF8 bs.toByteArray h).rawEndPos := by
    simpa [String.Pos.Raw.lt_iff, String.fromUTF8, String.utf8ByteSize] using hn
  have hne : (⟨n⟩ : String.Pos.Raw) ≠ (String.fromUTF8 bs.toByteArray h).rawEndPos := by
    intro he
    rw [he] at hlt
    simp [String.Pos.Raw.lt_iff] at hlt
  rw [String.Pos.Raw.isValid_iff_isValidUTF8_extract_zero] at hp
  rw [Valid, toByteArray_take]
  constructor
  · intro hv
    rcases hp.mp ⟨String.Pos.Raw.le_of_lt hlt, hv⟩ with he | ⟨_, hf⟩
    · exact absurd he hne
    · simpa [String.getUTF8Byte, String.fromUTF8] using hf
  · intro hf
    refine (hp.mpr (Or.inr ⟨hlt, ?_⟩)).2
    simpa [String.getUTF8Byte, String.fromUTF8] using hf

/-- Cutting at the first NUL keeps whole characters. -/
theorem valid_takeWhile {bs : List UInt8} (h : Valid bs) : Valid (bs.takeWhile (· != 0)) := by
  rw [List.takeWhile_eq_take_findIdx_not]
  by_cases hn : bs.findIdx (fun b => !(b != 0)) < bs.length
  · rw [valid_take_iff h hn]
    have hzero : bs[bs.findIdx (fun b => !(b != 0))] = 0 := by
      simpa using List.findIdx_getElem (w := hn)
    rw [hzero]
    decide
  · rw [List.take_of_length_le (Nat.not_lt.mp hn)]
    exact h

end IndustrialIot.Utf8
