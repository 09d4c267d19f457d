import Mathlib.Data.Int.ModEq
import PomeloUdp.Library.SlidingWindow

/-!
# Sample sets

A sample set keeps the last values in a circular buffer with their sum and the sum of their
squares. `pomelo_sample_set_u64_t` and `pomelo_sample_set_i64_t` have the same code with other
types, and `SampleType` says what the operators and conversions of the language do to them:
an operator with a `uint64_t` or a `size_t` on one side works on `uint64_t`. Signed operators
wrap around as the unsigned ones do.

Modulo `2 ^ 64` the sums are those of the window, whatever the values (`Tracks`). The mean and
the variance of the signed set are computed as unsigned numbers; `statistics_iff` says when
that gives those of the window.
-/

namespace PomeloUdp

namespace Utils

open SlidingWindow

section Conversion

theorem toNat_ofInt (z : ℤ) : ((UInt64.ofInt z).toNat : ℤ) = z % 2 ^ 64 := by
  have hnonneg : 0 ≤ z % 2 ^ 64 := Int.emod_nonneg z (by decide)
  have hlt : z % 2 ^ 64 < 2 ^ 64 := Int.emod_lt_of_pos z (by decide)
  rw [UInt64.ofInt, UInt64.toNat_ofNat']
  omega

theorem toNat_ofInt_of_lt {z : ℤ} (hnonneg : 0 ≤ z) (hlt : z < 2 ^ 64) :
    ((UInt64.ofInt z).toNat : ℤ) = z := by
  rw [toNat_ofInt, Int.emod_eq_of_lt hnonneg hlt]

theorem ofInt_toNat (x : UInt64) : UInt64.ofInt x.toNat = x := by
  have hlt := x.toNat_lt
  have h := toNat_ofInt x.toNat
  apply UInt64.toNat_inj.mp
  omega

theorem ofInt_toInt (x : Int64) : UInt64.ofInt x.toInt = x.toUInt64 := by
  have hlt := x.toUInt64.toNat_lt
  have h := toNat_ofInt x.toInt
  have hx : x.toInt = if 2 * x.toUInt64.toNat < 2 ^ 64 then (x.toUInt64.toNat : ℤ)
      else (x.toUInt64.toNat : ℤ) - (2 ^ 64 : ℕ) := BitVec.toInt_eq_toNat_cond x.toBitVec
  apply UInt64.toNat_inj.mp
  split at hx <;> omega

theorem toInt_toInt64_ofInt (z : ℤ) : (UInt64.ofInt z).toInt64.toInt = z.bmod (2 ^ 64) := by
  have hbits : (UInt64.ofInt z).toInt64.toInt = ((UInt64.ofInt z).toNat : ℤ).bmod (2 ^ 64) :=
    BitVec.toInt_eq_toNat_bmod _
  have hmod := Int.emod_bmod z (n := 2 ^ 64)
  rw [hbits, toNat_ofInt, ← hmod]
  rfl

theorem ofInt_div (z : ℤ) {n : ℕ} (hn : n < 2 ^ 64) :
    UInt64.ofInt z / UInt64.ofNat n = UInt64.ofInt (z % 2 ^ 64 / n) := by
  have hnonneg : 0 ≤ z % 2 ^ 64 := Int.emod_nonneg z (by decide)
  have hlt : z % 2 ^ 64 < 2 ^ 64 := Int.emod_lt_of_pos z (by decide)
  have hquotient := Int.ediv_nonneg hnonneg (Int.natCast_nonneg n)
  have hle := Int.ediv_le_self (n : ℤ) hnonneg
  apply UInt64.toNat_inj.mp
  apply Int.ofNat_inj.mp
  rw [toNat_ofInt_of_lt hquotient (by omega), UInt64.toNat_div, UInt64.toNat_ofNat',
    Nat.mod_eq_of_lt hn, Int.natCast_ediv, toNat_ofInt]

theorem ofInt_sub (x y : ℤ) : UInt64.ofInt (x - y) = UInt64.ofInt x - UInt64.ofInt y := by
  rw [Int.sub_eq_add_neg, UInt64.ofInt_add, UInt64.ofInt_neg, UInt64.sub_eq_add_neg]

end Conversion

/-- The type of a sample: its operators, its conversions and the number it stands for. -/
structure SampleType (α : Type) where
  add : α → α → α
  mul : α → α → α
  toUInt64 : α → UInt64
  ofUInt64 : UInt64 → α
  toInt : α → ℤ
  toUInt64_add : ∀ x y, toUInt64 (add x y) = toUInt64 x + toUInt64 y
  toUInt64_mul : ∀ x y, toUInt64 (mul x y) = toUInt64 x * toUInt64 y
  toUInt64_ofUInt64 : ∀ x, toUInt64 (ofUInt64 x) = x
  toUInt64_eq : ∀ x, toUInt64 x = UInt64.ofInt (toInt x)

/-- `uint64_t`. -/
def u64 : SampleType UInt64 where
  add := (· + ·)
  mul := (· * ·)
  toUInt64 := id
  ofUInt64 := id
  toInt x := x.toNat
  toUInt64_add _ _ := rfl
  toUInt64_mul _ _ := rfl
  toUInt64_ofUInt64 _ := rfl
  toUInt64_eq x := (ofInt_toNat x).symm

/-- `int64_t`. -/
def i64 : SampleType Int64 where
  add := (· + ·)
  mul := (· * ·)
  toUInt64 := Int64.toUInt64
  ofUInt64 := UInt64.toInt64
  toInt := Int64.toInt
  toUInt64_add := Int64.toUInt64_add
  toUInt64_mul := Int64.toUInt64_mul
  toUInt64_ofUInt64 _ := rfl
  toUInt64_eq x := (ofInt_toInt x).symm

/-- `pomelo_sample_set_u64_t` and `pomelo_sample_set_i64_t`. -/
structure SampleSet (α : Type) (size : ℕ) where
  initialized : Bool
  index : Fin size
  values : Vector α size
  sum : α
  sumSquared : α
  deriving DecidableEq

namespace SampleSet

section Operations

variable {α : Type} (t : SampleType α) {size : ℕ}

/-- `pomelo_sample_set_u64_init` and `pomelo_sample_set_i64_init`. -/
def init (hsize : 0 < size) (values : Vector α size) : SampleSet α size where
  initialized := false
  index := ⟨0, hsize⟩
  values := values
  sum := t.ofUInt64 0
  sumSquared := t.ofUInt64 0

/-- `pomelo_sample_set_u64_submit` and `pomelo_sample_set_i64_submit`. -/
def submit (s : SampleSet α size) (value : α) : SampleSet α size :=
  if !s.initialized then
    let sum := t.ofUInt64 (t.toUInt64 value * UInt64.ofNat size)
    { s with
      values := Vector.replicate size value
      sum := sum
      sumSquared := t.mul sum value
      initialized := true }
  else
    let prevValue := t.toUInt64 (s.values.get s.index)
    { s with
      sum := t.ofUInt64 (t.toUInt64 (t.add s.sum value) - prevValue)
      sumSquared := t.ofUInt64
        (t.toUInt64 (t.add s.sumSquared (t.mul value value)) - prevValue * prevValue)
      values := s.values.set s.index value
      index := ⟨(s.index + 1) % size, Nat.mod_lt _ (Nat.zero_lt_of_lt s.index.isLt)⟩ }

/-- `pomelo_sample_set_u64_calc` and `pomelo_sample_set_i64_calc`: the mean and the
variance. -/
def calcSample (s : SampleSet α size) : α × α :=
  let meanValue := t.toUInt64 s.sum / UInt64.ofNat size
  (t.ofUInt64 meanValue,
    t.ofUInt64 (t.toUInt64 s.sumSquared / UInt64.ofNat size - meanValue * meanValue))

end Operations

section Members

variable {size : ℕ}

/-- `pomelo_sample_set_u64_submit`. -/
def submitU64 (s : SampleSet UInt64 size) (value : UInt64) : SampleSet UInt64 size :=
  submit u64 s value

/-- `pomelo_sample_set_u64_calc`. -/
def calcU64 (s : SampleSet UInt64 size) : UInt64 × UInt64 := calcSample u64 s

/-- `pomelo_sample_set_i64_submit`. -/
def submitI64 (s : SampleSet Int64 size) (value : Int64) : SampleSet Int64 size :=
  submit i64 s value

/-- `pomelo_sample_set_i64_calc`. -/
def calcI64 (s : SampleSet Int64 size) : Int64 × Int64 := calcSample i64 s

end Members

section Tracking

variable {α : Type} {t : SampleType α} {size : ℕ} {s : SampleSet α size}

/-- The samples are in the buffer from the index on, and the sums are theirs modulo
`2 ^ 64`. -/
structure Tracks (t : SampleType α) (s : SampleSet α size) (w : List α) : Prop where
  initialized : s.initialized = true
  values : s.values.toList.rotate s.index = w
  sum : t.toUInt64 s.sum = UInt64.ofInt (w.map t.toInt).sum
  sumSquared : t.toUInt64 s.sumSquared = UInt64.ofInt (w.map fun x => t.toInt x ^ 2).sum

theorem ofInt_sq (t : SampleType α) (x : α) :
    UInt64.ofInt (t.toInt x ^ 2) = t.toUInt64 x * t.toUInt64 x := by
  rw [pow_two, UInt64.ofInt_mul, t.toUInt64_eq]

theorem tracks_first (h : s.initialized = false) (value : α) :
    Tracks t (s.submit t value) (window size value []) := by
  have hsize : UInt64.ofNat size = UInt64.ofInt size := by
    rw [UInt64.ofInt, UInt64.ofNat_eq_iff_mod_eq_toNat, UInt64.toNat_ofNat']
    omega
  have hset : s.submit t value = { s with
      values := Vector.replicate size value
      sum := t.ofUInt64 (t.toUInt64 value * UInt64.ofNat size)
      sumSquared := t.mul (t.ofUInt64 (t.toUInt64 value * UInt64.ofNat size)) value
      initialized := true } := by
    unfold submit
    rw [h]
    rfl
  rw [hset]
  refine ⟨rfl, ?_, ?_, ?_⟩
  · change (Vector.replicate size value).toList.rotate s.index = List.replicate size value
    rw [Vector.toList_replicate, List.rotate_replicate]
  · change t.toUInt64 (t.ofUInt64 _) = UInt64.ofInt ((List.replicate size value).map t.toInt).sum
    rw [t.toUInt64_ofUInt64, List.map_replicate, List.sum_replicate, nsmul_eq_mul,
      UInt64.ofInt_mul, hsize, t.toUInt64_eq, UInt64.mul_comm]
  · change t.toUInt64 (t.mul _ _) = UInt64.ofInt ((List.replicate size value).map _).sum
    rw [t.toUInt64_mul, t.toUInt64_ofUInt64, List.map_replicate, List.sum_replicate, nsmul_eq_mul,
      UInt64.ofInt_mul, hsize, ofInt_sq, UInt64.mul_comm (t.toUInt64 value), UInt64.mul_assoc]

theorem Tracks.submit {w : List α} (h : Tracks t s w) (value : α) :
    Tracks t (s.submit t value) (push w value) := by
  have hindex : (s.index : ℕ) < s.values.toList.length := by simp
  have hw : w ≠ [] := h.values ▸ rotate_ne_nil hindex
  have hhead : s.values.get s.index = w.head hw := by
    have hrotate := head_rotate hindex
    simp only [h.values, Vector.getElem_toList] at hrotate
    rw [hrotate]
    rfl
  have hset : s.submit t value = { s with
      sum := t.ofUInt64 (t.toUInt64 (t.add s.sum value) - t.toUInt64 (w.head hw))
      sumSquared := t.ofUInt64 (t.toUInt64 (t.add s.sumSquared (t.mul value value)) -
        t.toUInt64 (w.head hw) * t.toUInt64 (w.head hw))
      values := s.values.set s.index value
      index := ⟨(s.index + 1) % size, Nat.mod_lt _ (Nat.zero_lt_of_lt s.index.isLt)⟩ } := by
    unfold SampleSet.submit
    rw [h.initialized, ← hhead]
    rfl
  rw [hset]
  refine ⟨h.initialized, ?_, ?_, ?_⟩
  · change (s.values.set s.index value).toList.rotate ((s.index + 1) % size) = _
    have hrotate := rotate_set hindex value
    rw [Vector.length_toList] at hrotate
    rw [Vector.toList_set, hrotate, h.values]
  · change t.toUInt64 (t.ofUInt64 _) = _
    rw [t.toUInt64_ofUInt64, t.toUInt64_add, h.sum, sum_map_push t.toInt hw, ofInt_sub,
      UInt64.ofInt_add, ← t.toUInt64_eq, ← t.toUInt64_eq]
  · change t.toUInt64 (t.ofUInt64 _) = _
    rw [t.toUInt64_ofUInt64, t.toUInt64_add, t.toUInt64_mul, h.sumSquared,
      sum_map_push (fun x => t.toInt x ^ 2) hw, ofInt_sub, UInt64.ofInt_add, ofInt_sq, ofInt_sq]

/-- The window after any samples. -/
theorem tracks_run (h : s.initialized = false) (first : α) (rest : List α) :
    Tracks t ((first :: rest).foldl (SampleSet.submit t) s) (window size first rest) := by
  have hfrom : ∀ (rest : List α) (s : SampleSet α size) (w : List α), Tracks t s w →
      Tracks t (rest.foldl (SampleSet.submit t) s) (rest.foldl push w) := by
    intro rest
    induction rest with
    | nil =>
        intro s w hs
        exact hs
    | cons value rest ih =>
        intro s w hs
        exact ih _ _ (hs.submit value)
  exact hfrom rest _ _ (tracks_first h first)

end Tracking

end SampleSet

section Statistics

/-- The mean of the numbers and the mean of their squares less its square, both quotients
truncated. -/
def Statistics (w : List ℤ) (mean variance : ℤ) : Prop :=
  mean = w.sum.tdiv w.length ∧
    variance = (w.map (· ^ 2)).sum.tdiv w.length - w.sum.tdiv w.length ^ 2

/-- The sum and the sum of the squares are in the range of `int64_t`. -/
structure Fits (w : List ℤ) : Prop where
  sum_ge : -2 ^ 63 ≤ w.sum
  sum_lt : w.sum < 2 ^ 63
  squares_lt : (w.map (· ^ 2)).sum < 2 ^ 63

theorem squares_nonneg (w : List ℤ) : 0 ≤ (w.map (· ^ 2)).sum :=
  List.sum_nonneg (by simp only [List.mem_map]; rintro _ ⟨x, -, rfl⟩; exact sq_nonneg x)

theorem sq_mean_le {w : List ℤ} (hw : w ≠ []) (hsum : 0 ≤ w.sum) :
    (w.sum / w.length) ^ 2 ≤ (w.map (· ^ 2)).sum / w.length := by
  have hpos : (0 : ℤ) < w.length := by exact_mod_cast List.length_pos_iff.mpr hw
  have hmul : w.length * (w.sum / w.length) ≤ w.sum := Int.mul_ediv_self_le hpos.ne'
  have hmean : 0 ≤ w.sum / w.length := Int.ediv_nonneg hsum hpos.le
  have hsquare : (w.length * (w.sum / w.length)) ^ 2 ≤ w.length * (w.map (· ^ 2)).sum :=
    (pow_le_pow_left₀ (by positivity) hmul 2).trans (sq_sum_le w)
  rw [Int.le_ediv_iff_mul_le hpos]
  refine le_of_mul_le_mul_left ?_ hpos
  calc (w.length : ℤ) * ((w.sum / (w.length : ℤ)) ^ 2 * (w.length : ℤ))
      = ((w.length : ℤ) * (w.sum / (w.length : ℤ))) ^ 2 := by ring
    _ ≤ (w.length : ℤ) * (w.map (· ^ 2)).sum := hsquare

end Statistics

section Arithmetic

variable {sum squares : ℤ} {n : ℕ}

theorem bmod_of_lt {z : ℤ} (hge : -2 ^ 63 ≤ z) (hlt : z < 2 ^ 63) : z.bmod (2 ^ 64) = z :=
  Int.bmod_eq_of_le (by omega) (by omega)

theorem bmod_emod (z : ℤ) : (z % 2 ^ 64).bmod (2 ^ 64) = z.bmod (2 ^ 64) :=
  Int.emod_bmod z (n := 2 ^ 64)

theorem quotients_of_nonneg (hsum : 0 ≤ sum) (hsum' : sum < 2 ^ 63)
    (hsquares : 0 ≤ squares) (hsquares' : squares < 2 ^ 63)
    (hmean : (sum / n) ^ 2 ≤ squares / n) :
    (sum % 2 ^ 64 / n).bmod (2 ^ 64) = sum.tdiv n ∧
      (squares % 2 ^ 64 / n - (sum % 2 ^ 64 / n) ^ 2).bmod (2 ^ 64) =
        squares.tdiv n - sum.tdiv n ^ 2 := by
  have hle : sum / n ≤ sum := Int.ediv_le_self _ hsum
  have hle' : squares / n ≤ squares := Int.ediv_le_self _ hsquares
  have hquotient : 0 ≤ sum / n := Int.ediv_nonneg hsum (Int.natCast_nonneg n)
  have hsquare : 0 ≤ (sum / (n : ℤ)) ^ 2 := sq_nonneg _
  rw [Int.emod_eq_of_lt hsum (by omega), Int.emod_eq_of_lt hsquares (by omega),
    Int.tdiv_eq_ediv_of_nonneg hsum, Int.tdiv_eq_ediv_of_nonneg hsquares]
  exact ⟨bmod_of_lt (by omega) (by omega), bmod_of_lt (by omega) (by omega)⟩

theorem mean_of_neg (hn : 2 ≤ n) (hsum : sum < 0) (hsum' : -2 ^ 63 ≤ sum) :
    (sum % 2 ^ 64 / n).bmod (2 ^ 64) = sum.tdiv n ↔ 2 ^ 64 + sum < n := by
  have hmod : sum % 2 ^ 64 = 2 ^ 64 + sum := by omega
  have hquotient : 0 ≤ (2 ^ 64 + sum) / (n : ℤ) :=
    Int.ediv_nonneg (by omega) (Int.natCast_nonneg n)
  have hhalf : (2 ^ 64 + sum) / (n : ℤ) * 2 ≤ 2 ^ 64 + sum :=
    (mul_le_mul_of_nonneg_left (by exact_mod_cast hn) hquotient).trans
      (Int.ediv_mul_le _ (by omega))
  have htdiv : 0 ≤ (-sum).tdiv n := Int.tdiv_nonneg (by omega) (Int.natCast_nonneg n)
  rw [Int.neg_tdiv] at htdiv
  rw [hmod, bmod_of_lt (by omega) (by omega)]
  constructor
  · intro heq
    by_contra hle
    have hone : 1 ≤ (2 ^ 64 + sum) / (n : ℤ) := by
      rw [Int.le_ediv_iff_mul_le (by omega)]
      omega
    omega
  · intro hlt
    rw [Int.ediv_eq_zero_of_lt (by omega) hlt]
    have hzero : (-sum).tdiv n = 0 := Int.tdiv_eq_zero_of_lt (by omega) (by omega)
    rw [Int.neg_tdiv] at hzero
    omega

theorem quotients_one (hsum : -2 ^ 63 ≤ sum) (hsum' : sum < 2 ^ 63) :
    (sum % 2 ^ 64).bmod (2 ^ 64) = sum ∧
      (sum ^ 2 % 2 ^ 64 - (sum % 2 ^ 64) ^ 2).bmod (2 ^ 64) = sum ^ 2 - sum ^ 2 := by
  have hsquare : sum ^ 2 % 2 ^ 64 ≡ (sum % 2 ^ 64) ^ 2 [ZMOD 2 ^ 64] :=
    (Int.mod_modEq _ _).trans ((Int.mod_modEq sum _).symm.pow 2)
  have hzero : (sum ^ 2 % 2 ^ 64 - (sum % 2 ^ 64) ^ 2) % 2 ^ 64 = 0 :=
    Int.emod_eq_zero_of_dvd hsquare.symm.dvd
  refine ⟨?_, ?_⟩
  · rw [bmod_emod, bmod_of_lt hsum hsum']
  · rw [sub_self, ← bmod_emod, hzero]
    rfl

theorem quotients_iff (hn : 0 < n) (hsum : -2 ^ 63 ≤ sum) (hsum' : sum < 2 ^ 63)
    (hsquares : 0 ≤ squares) (hsquares' : squares < 2 ^ 63)
    (hmean : 0 ≤ sum → (sum / n) ^ 2 ≤ squares / n) (hone : n = 1 → squares = sum ^ 2) :
    (sum % 2 ^ 64 / n).bmod (2 ^ 64) = sum.tdiv n ∧
        (squares % 2 ^ 64 / n - (sum % 2 ^ 64 / n) ^ 2).bmod (2 ^ 64) =
          squares.tdiv n - sum.tdiv n ^ 2 ↔
      0 ≤ sum ∨ n = 1 ∨ 2 ^ 64 + sum < n := by
  by_cases hnonneg : 0 ≤ sum
  · exact iff_of_true (quotients_of_nonneg hnonneg hsum' hsquares hsquares' (hmean hnonneg))
      (.inl hnonneg)
  · by_cases hn' : n = 1
    · refine iff_of_true ?_ (.inr (.inl hn'))
      obtain ⟨hfirst, hsecond⟩ := quotients_one hsum hsum'
      rw [hone hn', hn', Nat.cast_one, Int.ediv_one, Int.ediv_one, Int.tdiv_one, Int.tdiv_one]
      exact ⟨hfirst, hsecond⟩
    · have hiff := mean_of_neg (n := n) (by omega) (by omega) hsum
      rw [or_iff_right hnonneg, or_iff_right hn', ← hiff]
      refine ⟨And.left, fun hleft => ⟨hleft, ?_⟩⟩
      have hlt := hiff.mp hleft
      have hzero : sum % 2 ^ 64 / n = 0 := by
        rw [Int.ediv_eq_zero_of_lt (by omega) (by omega)]
      have hle : squares / n ≤ squares := Int.ediv_le_self _ hsquares
      have hquotient : 0 ≤ squares / n := Int.ediv_nonneg hsquares (Int.natCast_nonneg n)
      rw [hzero] at hleft ⊢
      rw [← hleft, Int.emod_eq_of_lt hsquares (by omega), Int.tdiv_eq_ediv_of_nonneg hsquares]
      change (squares / n - 0).bmod (2 ^ 64) = squares / n - 0
      rw [sub_zero, bmod_of_lt (by omega) (by omega)]

end Arithmetic

namespace SampleSet

variable {α : Type} {t : SampleType α} {size : ℕ} {s : SampleSet α size} {w : List α}

theorem Tracks.calcSample (h : Tracks t s w) (hsize : size < 2 ^ 64) :
    s.calcSample t =
      (t.ofUInt64 (UInt64.ofInt ((w.map t.toInt).sum % 2 ^ 64 / size)),
        t.ofUInt64 (UInt64.ofInt ((w.map fun x => t.toInt x ^ 2).sum % 2 ^ 64 / size -
          ((w.map t.toInt).sum % 2 ^ 64 / size) ^ 2))) := by
  unfold SampleSet.calcSample
  rw [h.sum, h.sumSquared, ofInt_div _ hsize, ofInt_div _ hsize, ofInt_sub, pow_two,
    UInt64.ofInt_mul]

/-- The signed set gives the statistics of its window exactly if the sum of the window is not
negative, or the window holds one sample, or it is longer than the sum is as an unsigned
number. -/
theorem statistics_iff (hpos : 0 < size) (hsize : size < 2 ^ 64) (values : Vector Int64 size)
    (first : Int64) (rest : List Int64)
    (hfits : Fits ((window size first rest).map Int64.toInt)) :
    Statistics ((window size first rest).map Int64.toInt)
        (calcI64 ((first :: rest).foldl submitI64 (init i64 hpos values))).1.toInt
        (calcI64 ((first :: rest).foldl submitI64 (init i64 hpos values))).2.toInt ↔
      0 ≤ ((window size first rest).map Int64.toInt).sum ∨ size = 1 ∨
        2 ^ 64 + ((window size first rest).map Int64.toInt).sum < size := by
  have htracks := tracks_run (t := i64) (s := init i64 hpos values) rfl first rest
  have hcalc := htracks.calcSample hsize
  have hlength : ((window size first rest).map Int64.toInt).length = size := by
    rw [List.length_map, length_window hpos]
  have hsquares : ((window size first rest).map fun x => i64.toInt x ^ 2).sum =
      (((window size first rest).map Int64.toInt).map (· ^ 2)).sum := by
    rw [List.map_map]
    rfl
  rw [hsquares] at hcalc
  change calcI64 ((first :: rest).foldl submitI64 (init i64 hpos values)) = _ at hcalc
  rw [hcalc, Statistics, hlength]
  change (UInt64.ofInt
    (((window size first rest).map Int64.toInt).sum % 2 ^ 64 / size)).toInt64.toInt
    = _ ∧ (UInt64.ofInt _).toInt64.toInt = _ ↔ _
  rw [toInt_toInt64_ofInt, toInt_toInt64_ofInt]
  have hw : (window size first rest).map Int64.toInt ≠ [] :=
    List.ne_nil_of_length_pos (by rwa [hlength])
  have hmean := sq_mean_le hw
  rw [hlength] at hmean
  refine quotients_iff hpos hfits.sum_ge hfits.sum_lt (squares_nonneg _) hfits.squares_lt hmean ?_
  intro hone
  obtain ⟨x, hx⟩ := List.length_eq_one_iff.mp (hlength.trans hone)
  simp [hx]

/-- Two samples whose sum is not negative. -/
theorem statistics_iff_positive :
    Statistics ((window 2 (-3) [7]).map Int64.toInt)
        (calcI64 ([-3, 7].foldl submitI64 (init i64 (by decide) #v[0, 0]))).1.toInt
        (calcI64 ([-3, 7].foldl submitI64 (init i64 (by decide) #v[0, 0]))).2.toInt :=
  (statistics_iff (by decide) (by decide) #v[0, 0] (-3) [7]
    ⟨by decide, by decide, by decide⟩).mpr (.inl (by decide))

/-- The clock is ahead by a nanosecond: the mean of ten such offsets. -/
theorem not_statistics_negative :
    Fits ((window 10 (-1) []).map Int64.toInt) ∧
      ¬ Statistics ((window 10 (-1) []).map Int64.toInt)
        (calcI64 ([-1].foldl submitI64 (init i64 (by decide) (Vector.replicate 10 0)))).1.toInt
        (calcI64 ([-1].foldl submitI64
          (init i64 (by decide) (Vector.replicate 10 0)))).2.toInt := by
  have hmean : (calcI64 ([-1].foldl submitI64
      (init i64 (by decide) (Vector.replicate 10 0)))).1.toInt = 1844674407370955160 := by
    decide
  refine ⟨⟨by decide, by decide, by decide⟩, fun h => ?_⟩
  rw [hmean] at h
  exact absurd h.1 (by decide)

end SampleSet

end Utils

end PomeloUdp
