import Mathlib.Data.List.Basic

/-!
# 64-bit counters

A counter grows by one as long as it has not reached its last value, after which
it wraps around.
-/

namespace Counter

theorem lt_add_one_of_le {a b : UInt64} (hb : b ≠ 0xffffffffffffffff) (h : a ≤ b) : a < b + 1 := by
  rw [UInt64.le_iff_toNat_le] at h
  rw [UInt64.lt_iff_toNat_lt, UInt64.toNat_add]
  have hne : b.toNat ≠ 0xffffffffffffffff := by
    intro heq
    exact hb (UInt64.toNat_inj.mp heq)
  have hlt := b.toNat_lt
  simp
  omega

theorem lt_add_one {b : UInt64} (hb : b ≠ 0xffffffffffffffff) : b < b + 1 :=
  lt_add_one_of_le hb (UInt64.le_refl b)

end Counter
