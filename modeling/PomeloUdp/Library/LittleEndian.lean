import Mathlib.Algebra.Group.Nat.Defs
import Mathlib.Data.Nat.Notation
import Mathlib.Tactic.TypeStar

/-!
# Little-endian bytes of a number

`toLittleEndian` takes the low bytes of a 64-bit number, lowest first, by shifting
the number right; `fromLittleEndian` puts bytes together by shifting each of them
left and taking the bitwise or. They are inverse for the numbers that fit.
-/

namespace LittleEndian

/-- The `n` low bytes, lowest first. -/
def toLittleEndian : ℕ → UInt64 → List UInt8
  | 0, _ => []
  | n + 1, value => value.toUInt8 :: toLittleEndian n (value >>> 8)

/-- Bytes put into a number from byte `i` on. -/
def fromLittleEndian : ℕ → UInt64 → List UInt8 → UInt64
  | _, value, [] => value
  | i, value, byte :: bytes =>
      fromLittleEndian (i + 1) (value ||| byte.toUInt64 <<< (UInt64.ofNat (i * 8))) bytes

@[simp] theorem length_toLittleEndian (n : ℕ) (value : UInt64) :
    (toLittleEndian n value).length = n := by
  induction n generalizing value with
  | zero => rfl
  | succ n ih => simp [toLittleEndian, ih]

theorem toNat_shiftRight_eight (value : UInt64) : (value >>> 8).toNat = value.toNat / 256 := by
  simp [UInt64.toNat_shiftRight, Nat.shiftRight_eq_div_pow]

/-- One byte more of a number whose low bytes are there. -/
theorem or_shiftLeft_byte {v w : UInt64} {i m : ℕ} {byte : UInt8} (hi : i < 8)
    (hv : v.toNat = m % 256 ^ i) (hbyte : byte.toNat = m / 256 ^ i % 256)
    (hw : w = v ||| byte.toUInt64 <<< (UInt64.ofNat (i * 8))) :
    w.toNat = m % 256 ^ (i + 1) := by
  have hpow : (256 : ℕ) ^ i = 2 ^ (i * 8) := by
    rw [Nat.mul_comm, Nat.pow_mul]
  have hlow : m % 256 ^ i < 2 ^ (i * 8) := hpow ▸ Nat.mod_lt _ (Nat.pow_pos (by decide))
  have hamount : (UInt64.ofNat (i * 8)).toNat % 64 = i * 8 := by
    rw [UInt64.toNat_ofNat']
    omega
  have hfit : byte.toNat * 2 ^ (i * 8) < 2 ^ 64 := by
    have hbound : byte.toNat < 2 ^ 8 := byte.toNat_lt
    calc byte.toNat * 2 ^ (i * 8) < 2 ^ 8 * 2 ^ (i * 8) := by
          exact Nat.mul_lt_mul_of_pos_right hbound (Nat.two_pow_pos _)
      _ = 2 ^ (8 + i * 8) := (Nat.pow_add _ _ _).symm
      _ ≤ 2 ^ 64 := Nat.pow_le_pow_right (by decide) (by omega)
  subst hw
  rw [UInt64.toNat_or, UInt64.toNat_shiftLeft, hamount, UInt8.toNat_toUInt64, hv,
    Nat.shiftLeft_eq, Nat.mod_eq_of_lt hfit, Nat.or_comm, Nat.mul_comm,
    ← Nat.two_pow_add_eq_or_of_lt hlow, hbyte, ← hpow, Nat.pow_succ, Nat.mod_mul]
  omega

/-- Reading back the bytes of a number from byte `i` on. -/
theorem fromLittleEndian_toLittleEndian_from (n i : ℕ) (hn : i + n ≤ 8) (v w value : UInt64)
    (hv : v.toNat = value.toNat % 256 ^ i) (hw : w.toNat = value.toNat / 256 ^ i) :
    (fromLittleEndian i v (toLittleEndian n w)).toNat = value.toNat % 256 ^ (i + n) := by
  induction n generalizing i v w with
  | zero => exact hv
  | succ n ih =>
      simp only [toLittleEndian, fromLittleEndian]
      rw [ih (i + 1) (by omega) _ _ ?_ ?_]
      · rw [Nat.add_assoc, Nat.add_comm 1 n]
      · refine or_shiftLeft_byte (by omega) hv ?_ rfl
        rw [UInt64.toNat_toUInt8, hw]
      · rw [toNat_shiftRight_eight, hw, Nat.div_div_eq_div_mul, Nat.pow_succ]

/-- A number that fits its bytes is read back. -/
theorem fromLittleEndian_toLittleEndian {n : ℕ} (hn : n ≤ 8) {value : UInt64}
    (hvalue : value.toNat < 256 ^ n) :
    fromLittleEndian 0 0 (toLittleEndian n value) = value := by
  apply UInt64.toNat_inj.mp
  rw [fromLittleEndian_toLittleEndian_from n 0 (by omega) 0 value value (by simp [Nat.mod_one])
    (by simp), Nat.zero_add, Nat.mod_eq_of_lt hvalue]

/-- The bytes behind those that a number needs are zero. -/
theorem toLittleEndian_add {m : ℕ} {value : UInt64} (h : value.toNat < 256 ^ m) (k : ℕ) :
    toLittleEndian (m + k) value = toLittleEndian m value ++ List.replicate k 0 := by
  induction m generalizing value with
  | zero =>
      obtain rfl : value = 0 := UInt64.toNat_inj.mp (Nat.lt_one_iff.mp h)
      induction k with
      | zero => rfl
      | succ k ih =>
          rw [Nat.zero_add] at ih ⊢
          exact congrArg (0 :: ·) ih
  | succ m ih =>
      have hshifted : (value >>> 8).toNat < 256 ^ m := by
        rw [toNat_shiftRight_eight]
        rw [Nat.pow_succ] at h
        exact Nat.div_lt_of_lt_mul (Nat.mul_comm _ _ ▸ h)
      rw [Nat.add_right_comm, toLittleEndian, ih hshifted]
      rfl

theorem fromLittleEndian_append (i : ℕ) (value : UInt64) (xs ys : List UInt8) :
    fromLittleEndian i value (xs ++ ys) =
      fromLittleEndian (i + xs.length) (fromLittleEndian i value xs) ys := by
  induction xs generalizing i value with
  | nil => rfl
  | cons x xs ih =>
      rw [List.cons_append, fromLittleEndian, ih, List.length_cons, Nat.add_assoc,
        Nat.add_comm 1]
      rfl

/-- Zero bytes add nothing, wherever they are shifted to. -/
theorem fromLittleEndian_replicate_zero (i k : ℕ) (value : UInt64) :
    fromLittleEndian i value (List.replicate k 0) = value := by
  induction k generalizing i value with
  | zero => rfl
  | succ k ih => simp [List.replicate_succ, fromLittleEndian, ih]

/-- More than eight bytes are read back as well. -/
theorem fromLittleEndian_toLittleEndian_of_lt {n : ℕ} {value : UInt64}
    (hvalue : value.toNat < 256 ^ n) :
    fromLittleEndian 0 0 (toLittleEndian n value) = value := by
  obtain hn | ⟨k, rfl⟩ : n ≤ 8 ∨ ∃ k, n = 8 + k := by
    obtain h | h := Nat.le_total n 8
    · exact .inl h
    · exact .inr (Nat.exists_eq_add_of_le h)
  · exact fromLittleEndian_toLittleEndian hn hvalue
  · rw [toLittleEndian_add value.toNat_lt, fromLittleEndian_append,
      fromLittleEndian_replicate_zero,
      fromLittleEndian_toLittleEndian (Nat.le_refl 8) value.toNat_lt]

/-- The bytes are the digits of the number. -/
theorem toNat_getElem_toLittleEndian (n : ℕ) (value : UInt64) (i : ℕ)
    (hi : i < (toLittleEndian n value).length) :
    (toLittleEndian n value)[i].toNat = value.toNat / 256 ^ i % 256 := by
  induction n generalizing value i with
  | zero => cases hi
  | succ n ih =>
      cases i with
      | zero => simp [toLittleEndian, UInt64.toNat_toUInt8]
      | succ i =>
          simp only [toLittleEndian, List.getElem_cons_succ]
          rw [ih, toNat_shiftRight_eight, Nat.div_div_eq_div_mul, Nat.pow_succ', Nat.mul_comm]

/-- Bytes behind a number of `i` bytes give a number that fits all of them. -/
theorem toNat_fromLittleEndian_lt {bytes : List UInt8} {i : ℕ} {value : UInt64}
    (hlength : i + bytes.length ≤ 8) (hvalue : value.toNat < 256 ^ i) :
    (fromLittleEndian i value bytes).toNat < 256 ^ (i + bytes.length) := by
  induction bytes generalizing i value with
  | nil => exact hvalue
  | cons byte bytes ih =>
      rw [List.length_cons] at hlength ⊢
      have hlow : value.toNat = (value.toNat + byte.toNat * 256 ^ i) % 256 ^ i := by
        rw [Nat.add_mul_mod_self_right, Nat.mod_eq_of_lt hvalue]
      have hhigh : byte.toNat = (value.toNat + byte.toNat * 256 ^ i) / 256 ^ i % 256 := by
        rw [Nat.add_mul_div_right _ _ (Nat.pow_pos (by decide)), Nat.div_eq_of_lt hvalue,
          Nat.zero_add, Nat.mod_eq_of_lt byte.toNat_lt]
      have hnext := or_shiftLeft_byte (i := i) (by omega) hlow hhigh rfl
      have hrest := ih (i := i + 1) (by omega)
        (hnext ▸ Nat.mod_lt _ (Nat.pow_pos (by decide)))
      rwa [Nat.add_right_comm, Nat.add_assoc] at hrest

/-- Every list of at most 8 bytes is the bytes of a number that fits them. -/
theorem exists_toLittleEndian {bytes : List UInt8} (h : bytes.length ≤ 8) :
    ∃ value : UInt64, value.toNat < 256 ^ bytes.length ∧
      toLittleEndian bytes.length value = bytes := by
  induction bytes with
  | nil => exact ⟨0, by decide, rfl⟩
  | cons byte bytes ih =>
      rw [List.length_cons] at h ⊢
      obtain ⟨value, hlt, hvalue⟩ := ih (by omega)
      have hpow : (256 : ℕ) ^ bytes.length ≤ 256 ^ 7 := Nat.pow_le_pow_right (by decide) (by omega)
      have hbyte : byte.toNat < 256 := byte.toNat_lt
      have hnat : (UInt64.ofNat (byte.toNat + 256 * value.toNat)).toNat =
          byte.toNat + 256 * value.toNat := by
        rw [UInt64.toNat_ofNat', Nat.mod_eq_of_lt]
        omega
      refine ⟨UInt64.ofNat (byte.toNat + 256 * value.toNat), ?_, ?_⟩
      · rw [hnat, Nat.pow_succ]
        omega
      · have hhead : (UInt64.ofNat (byte.toNat + 256 * value.toNat)).toUInt8 = byte := by
          apply UInt8.toNat_inj.mp
          rw [UInt64.toNat_toUInt8, hnat]
          omega
        have htail : UInt64.ofNat (byte.toNat + 256 * value.toNat) >>> 8 = value := by
          apply UInt64.toNat_inj.mp
          rw [toNat_shiftRight_eight, hnat]
          omega
        rw [toLittleEndian, hhead, htail, hvalue]

end LittleEndian
