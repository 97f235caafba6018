import Mathlib.Data.List.Basic
import Mathlib.Data.Nat.Digits.Defs
import Mathlib.Tactic.Ring

/-!
# Base-128 varints

Seven value bits a byte, least significant group first, and the high bit set on
every byte but the last. The reader takes a bound on the number of bytes, as
every format that uses varints has one.
-/

namespace IndustrialIot.Varint

/-- The shortest encoding of a number. -/
def encode (n : Nat) : List UInt8 :=
  if n < 128 then [UInt8.ofNat n] else UInt8.ofNat (n % 128 + 128) :: encode (n / 128)

/-- Read a varint of at most the given number of bytes. -/
def decode : Nat → List UInt8 → Option (Nat × List UInt8)
  | 0, _ => none
  | _ + 1, [] => none
  | k + 1, b :: bs =>
    if b.toNat < 128 then some (b.toNat, bs)
    else (decode k bs).map fun (n, rest) => (b.toNat - 128 + 128 * n, rest)

theorem encode_of_lt {n : Nat} (h : n < 128) : encode n = [UInt8.ofNat n] := by
  rw [encode, if_pos h]

theorem encode_of_le {n : Nat} (h : 128 ≤ n) :
    encode n = UInt8.ofNat (n % 128 + 128) :: encode (n / 128) := by
  rw [encode, if_neg (Nat.not_lt.mpr h)]

/-- An encoding whose first group is known. -/
theorem encode_add {b n : Nat} (hb : b < 128) (hn : 0 < n) :
    encode (b + 128 * n) = UInt8.ofNat (b + 128) :: encode n := by
  have hmod : (b + 128 * n) % 128 = b := by omega
  have hdiv : (b + 128 * n) / 128 = n := by omega
  rw [encode_of_le (by omega), hmod, hdiv]

theorem encode_ne_nil (n : Nat) : encode n ≠ [] := by
  rw [encode]
  split <;> simp

private theorem toNat_ofNat_of_lt {n : Nat} (h : n < 256) : (UInt8.ofNat n).toNat = n := by
  rw [UInt8.toNat_ofNat']
  exact Nat.mod_eq_of_lt h

/-- Reading back a number that fits the bound, whatever follows it. -/
theorem decode_encode {k n : Nat} (rest : List UInt8) (h : n < 128 ^ (k + 1)) :
    decode (k + 1) (encode n ++ rest) = some (n, rest) := by
  induction k generalizing n with
  | zero =>
    have hn : n < 128 := by simpa using h
    simp [encode_of_lt hn, decode, toNat_ofNat_of_lt (by omega : n < 256), hn]
  | succ k ih =>
    by_cases hn : n < 128
    · simp [encode_of_lt hn, decode, toNat_ofNat_of_lt (by omega : n < 256), hn]
    · have hdiv : n / 128 < 128 ^ (k + 1) := by
        rw [Nat.div_lt_iff_lt_mul (by decide), ← Nat.pow_succ]
        exact h
      have hbyte := toNat_ofNat_of_lt (by omega : n % 128 + 128 < 256)
      rw [encode_of_le (Nat.not_lt.mp hn), List.cons_append, decode, hbyte,
        if_neg (by omega), ih hdiv]
      simp only [Option.map_some, Option.some.injEq, Prod.mk.injEq, and_true]
      omega

/-- What is read does not depend on what follows it. -/
theorem decode_append {k n : Nat} {bs rest : List UInt8} (h : decode k bs = some (n, rest))
    (more : List UInt8) : decode k (bs ++ more) = some (n, rest ++ more) := by
  induction k generalizing bs n rest with
  | zero => simp [decode] at h
  | succ k ih =>
    cases bs with
    | nil => simp [decode] at h
    | cons b bs =>
      rw [decode] at h
      rw [List.cons_append, decode]
      split at h
      · rename_i hb
        cases h
        rw [if_pos hb]
      · rename_i hb
        obtain ⟨⟨m, rest'⟩, hm, he⟩ := Option.map_eq_some_iff.mp h
        cases he
        rw [if_neg hb, ih hm, Option.map_some]

/-- A reader leaves a proper suffix. -/
theorem length_of_decode {k n : Nat} {bs rest : List UInt8} (h : decode k bs = some (n, rest)) :
    rest.length < bs.length := by
  induction k generalizing bs n rest with
  | zero => simp [decode] at h
  | succ k ih =>
    cases bs with
    | nil => simp [decode] at h
    | cons b bs =>
      rw [decode] at h
      split at h
      · cases h
        exact Nat.lt_succ_self _
      · obtain ⟨⟨m, rest'⟩, hm, he⟩ := Option.map_eq_some_iff.mp h
        cases he
        exact (ih hm).trans (Nat.lt_succ_self _)

/-- The number of bytes is the number of base-128 digits. -/
theorem length_encode {n : Nat} (h : 0 < n) : (encode n).length = (Nat.digits 128 n).length := by
  induction n using Nat.strongRecOn with
  | ind n ih =>
    by_cases hn : n < 128
    · rw [encode_of_lt hn, Nat.digits_of_lt 128 n (Nat.ne_of_gt h) hn]
      rfl
    · have hle : 128 ≤ n := Nat.not_lt.mp hn
      have hdiv : 0 < n / 128 := Nat.div_pos hle (by decide)
      have hlt : n / 128 < n := Nat.div_lt_self h (by decide)
      rw [encode_of_le hle, Nat.digits_def' (by decide) h, List.length_cons, List.length_cons,
        ih (n / 128) hlt hdiv]

/-- A bound on the number bounds the number of bytes. -/
theorem length_encode_le {k n : Nat} (h : n < 128 ^ (k + 1)) : (encode n).length ≤ k + 1 := by
  induction k generalizing n with
  | zero => simp [encode_of_lt (by simpa using h : n < 128)]
  | succ k ih =>
    by_cases hn : n < 128
    · simp [encode_of_lt hn]
    · have hdiv : n / 128 < 128 ^ (k + 1) := by
        rw [Nat.div_lt_iff_lt_mul (by decide), ← Nat.pow_succ]
        exact h
      rw [encode_of_le (Nat.not_lt.mp hn), List.length_cons]
      exact Nat.succ_le_succ (ih hdiv)

/-- Every byte but the last one says that another follows. -/
theorem continues_iff {n k : Nat} (h : k < (encode n).length) :
    128 ≤ ((encode n).getD k 0).toNat ↔ k + 1 < (encode n).length := by
  induction n using Nat.strongRecOn generalizing k with
  | ind n ih =>
    by_cases hn : n < 128
    · have hbyte := toNat_ofNat_of_lt (by omega : n < 256)
      rw [encode_of_lt hn, List.length_singleton] at h ⊢
      obtain rfl : k = 0 := by omega
      rw [List.getD_cons_zero, hbyte]
      omega
    · have hbyte := toNat_ofNat_of_lt (by omega : n % 128 + 128 < 256)
      have hpos : 0 < (encode (n / 128)).length := List.length_pos_iff.mpr (encode_ne_nil _)
      rw [encode_of_le (Nat.not_lt.mp hn), List.length_cons] at h ⊢
      cases k with
      | zero =>
        rw [List.getD_cons_zero, hbyte]
        omega
      | succ k =>
        rw [List.getD_cons_succ, ih (n / 128) (Nat.div_lt_self (by omega) (by decide)) (by omega)]
        omega

end IndustrialIot.Varint
