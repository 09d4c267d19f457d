import Mathlib.Order.Bounds.Basic
import PomeloUdp.Base.CheckedPayload

/-!
# Packed integers

A packed integer takes as many bytes as its number needs: the least number of bytes that is
enough, with which the number is written and read back.
-/

namespace PomeloUdp

open LittleEndian

namespace PackedInteger

section RoundTrip

variable {w : Window} {n value : UInt64}

/-- There is room for `n` bytes more. -/
def Room (w : Window) (n : UInt64) : Prop := w.position.toNat + n.toNat ≤ w.capacity.toNat

theorem not_remain_lt (h : Room w n) : ¬w.capacity - w.position < n := by
  unfold Room at h
  rw [UInt64.lt_iff_toNat_lt, toNat_remain (UInt64.le_iff_toNat_le.mpr (by omega))]
  omega

theorem writePackedUint64_eq_unchecked (h : Room w n) :
    w.writePackedUint64 n value = w.writePackedUint64Unsafe n value :=
  if_neg (not_remain_lt h)

theorem readPackedUint64_eq_unchecked (h : Room w n) :
    w.readPackedUint64 n = w.readPackedUint64Unsafe n :=
  if_neg (not_remain_lt h)

theorem writePackedUint64Unsafe_eq (w : Window) (n value : UInt64) :
    w.writePackedUint64Unsafe n value = w.put (toLittleEndian n.toNat value) :=
  Window.writePackedLoop_eq (Nat.le_of_lt n.toNat_lt) value w

theorem readPackedUint64Unsafe_written (w : Window) (hn : value.toNat < 256 ^ n.toNat) :
    let written := (w.writePackedUint64Unsafe n value).window
    ({ written with position := w.position }.readPackedUint64Unsafe n) =
      ⟨some value, written, w.indices n.toNat⟩ := by
  intro written
  have hwritten : written = (w.put (toLittleEndian n.toNat value)).window := by
    rw [← writePackedUint64Unsafe_eq]
  have hlength := length_toLittleEndian n.toNat value
  have hposition : written.position = w.position + .ofNat n.toNat := by
    rw [hwritten, Window.put, hlength]
  have hbytes : (w.indices n.toNat).map written.memory = toLittleEndian n.toNat value := by
    have hput := Window.map_memory_put (w := w) (hlength.trans_le (Nat.le_of_lt n.toNat_lt))
    rwa [hlength, ← hwritten] at hput
  have hread : { written with position := w.position }.readPackedUint64Unsafe n =
      ⟨some (fromLittleEndian 0 0 ((w.indices n.toNat).map written.memory)),
        { written with position := w.position + .ofNat n.toNat }, w.indices n.toNat⟩ :=
    Window.readPackedLoop_eq n.toNat 0 0 _
  rw [hread, hbytes, fromLittleEndian_toLittleEndian_of_lt hn, ← hposition]

end RoundTrip

theorem writePackedUint64_cases (w : Window) (n value : UInt64) :
    w.writePackedUint64 n value = w.writePackedUint64Unsafe n value ∨
      w.writePackedUint64 n value = w.fail := by
  rw [Window.writePackedUint64]
  split
  · exact .inr rfl
  · exact .inl rfl

theorem readPackedUint64_cases (w : Window) (n : UInt64) :
    w.readPackedUint64 n = w.readPackedUint64Unsafe n ∨ w.readPackedUint64 n = w.fail := by
  rw [Window.readPackedUint64]
  split
  · exact .inr rfl
  · exact .inl rfl

/-- How a checked operation relates to the unchecked one: the same when it succeeds,
and nothing at all when it fails. -/
def Agrees {α : Type} (w : Window) (checked unchecked : Outcome α) : Prop :=
  (checked.value.isSome → checked = unchecked) ∧ (checked.value = none → checked.window = w)

theorem agrees_of_cases {α : Type} {w : Window} {checked unchecked : Outcome α}
    (h : checked = unchecked ∨ checked = w.fail) (hvalue : unchecked.value.isSome) :
    Agrees w checked unchecked := by
  obtain rfl | rfl := h
  · refine ⟨fun _ => rfl, fun hnone => ?_⟩
    rw [hnone] at hvalue
    cases hvalue
  · exact ⟨fun hsome => (Bool.false_ne_true hsome).elim, fun _ => rfl⟩

theorem agrees_write (w : Window) (n value : UInt64) :
    Agrees w (w.writePackedUint64 n value) (w.writePackedUint64Unsafe n value) := by
  refine agrees_of_cases (writePackedUint64_cases w n value) ?_
  rw [writePackedUint64Unsafe_eq]
  rfl

theorem agrees_read (w : Window) (n : UInt64) :
    Agrees w (w.readPackedUint64 n) (w.readPackedUint64Unsafe n) := by
  refine agrees_of_cases (readPackedUint64_cases w n) ?_
  rw [Window.readPackedUint64Unsafe, Window.readPackedLoop_eq]
  rfl

/-- The number of bytes is the least one that is enough, a number is read back when it
was written with at least as many, and the checked operations agree with the unchecked
ones. -/
theorem packedUint64 (value : UInt64) :
    IsLeast { n | 1 ≤ n ∧ n ≤ 8 ∧ value.toNat < 256 ^ n } (calcPackedUint64Bytes value) ∧
      (∀ w n, calcPackedUint64Bytes value ≤ n.toNat → Room w n →
        let written := w.writePackedUint64 n value
        let rewound := { written.window with position := w.position }
        written.value = some () ∧
          rewound.readPackedUint64 n = ⟨some value, written.window, w.indices n.toNat⟩ ∧
          rewound.readPackedUint64Unsafe n = ⟨some value, written.window, w.indices n.toNat⟩ ∧
          w.writePackedUint64Unsafe n value = written) ∧
      ∀ w n, Agrees w (w.writePackedUint64 n value) (w.writePackedUint64Unsafe n value) ∧
        Agrees w (w.readPackedUint64 n) (w.readPackedUint64Unsafe n) := by
  obtain ⟨hone, hle, hfits, -⟩ := calcPackedUint64Bytes_spec value
  refine ⟨⟨⟨hone, hle, hfits⟩, fun n hn => calcPackedUint64Bytes_le hn.1 hn.2.2⟩, ?_,
    fun w n => ⟨agrees_write w n value, agrees_read w n⟩⟩
  intro w n hn hroom written rewound
  have hwritten : written = w.writePackedUint64Unsafe n value :=
    writePackedUint64_eq_unchecked hroom
  have hvalue : value.toNat < 256 ^ n.toNat :=
    hfits.trans_le (Nat.pow_le_pow_right (by decide) hn)
  have hread : rewound.readPackedUint64Unsafe n =
      ⟨some value, written.window, w.indices n.toNat⟩ := by
    have hback := readPackedUint64Unsafe_written w hvalue
    simpa only [rewound, hwritten] using hback
  have hrewound : Room rewound n := by
    have hcapacity : rewound.capacity = w.capacity := by
      simp only [rewound, hwritten, writePackedUint64Unsafe_eq, Window.put]
    rw [Room, hcapacity]
    exact hroom
  refine ⟨?_, ?_, hread, hwritten.symm⟩
  · rw [hwritten, writePackedUint64Unsafe_eq]
    rfl
  · rw [readPackedUint64_eq_unchecked hrewound, hread]

theorem packedUint64_two_bytes :
    (Window.writePackedUint64 ⟨fun _ => 0, 3, 8⟩ 2 300).value = some () :=
  ((packedUint64 300).2.1 ⟨fun _ => 0, 3, 8⟩ 2 (by decide) (by unfold Room; decide)).1

end PackedInteger

end PomeloUdp
