import Mathlib.Data.List.Count
import Mathlib.Order.Interval.Finset.Nat

/-!
# Partition with two pointers

The elements of a range for which `front` holds are brought before the others, in place: the left
pointer passes elements that are in front, the right one elements that are not, and where both
stand still the elements are exchanged.

`arranged_partition` says what the slots hold where the pointers have met; from it
`perm_take_partition` gives the two groups, with their sizes.
-/

namespace TwoPointer

variable {α : Type*} {n : ℕ} (front : α → Bool)

/-- The left pointer passes the elements that are in front. -/
def scanLeft (v : Vector α n) (left right : ℕ) (hright : right < n) : ℕ :=
  if hlt : left < right then
    if front v[left] then scanLeft v (left + 1) right hright else left
  else left
termination_by right - left

/-- The right pointer passes the elements that are not. -/
def scanRight (v : Vector α n) (left right : ℕ) (hright : right < n) : ℕ :=
  if left < right then
    if !front v[right] then scanRight v left (right - 1) (by omega) else right
  else right
termination_by right - left

variable {front} {v w : Vector α n} {left right : ℕ} {hright : right < n}

theorem le_scanLeft : left ≤ scanLeft front v left right hright := by
  fun_induction scanLeft front v left right hright with
  | case1 _ _ _ ih => exact (Nat.le_succ _).trans ih
  | case2 => exact le_rfl
  | case3 => exact le_rfl

theorem scanLeft_le (hle : left ≤ right) : scanLeft front v left right hright ≤ right := by
  fun_induction scanLeft front v left right hright with
  | case1 _ hlt _ ih => exact ih hlt
  | case2 _ hlt => exact hlt.le
  | case3 => exact hle

/-- The left pointer has passed elements that are in front. -/
theorem front_of_lt_scanLeft {i : ℕ} (hle : left ≤ i)
    (hlt : i < scanLeft front v left right hright) (hi : i < n) : front v[i] = true := by
  fun_induction scanLeft front v left right hright with
  | case1 left _ hfront ih =>
      rcases Nat.eq_or_lt_of_le hle with rfl | hgt
      · exact hfront
      · exact ih hgt hlt
  | case2 => omega
  | case3 => omega

/-- It stands at an element that is not. -/
theorem not_front_of_scanLeft_eq {i : ℕ} (heq : scanLeft front v left right hright = i)
    (hlt : i < right) : front (v.get ⟨i, hlt.trans hright⟩) = false := by
  fun_induction scanLeft front v left right hright with
  | case1 _ _ _ ih => exact ih heq
  | case2 _ _ hfront =>
      subst heq
      exact (Bool.not_eq_true _).mp hfront
  | case3 => omega

theorem scanRight_lt : scanRight front v left right hright < n := by
  fun_induction scanRight front v left right hright with
  | case1 _ _ _ _ ih => exact ih
  | case2 => assumption
  | case3 => assumption

theorem scanRight_le : scanRight front v left right hright ≤ right := by
  fun_induction scanRight front v left right hright with
  | case1 _ _ _ _ ih => exact ih.trans (Nat.sub_le _ _)
  | case2 => exact le_rfl
  | case3 => exact le_rfl

theorem le_scanRight (hle : left ≤ right) : left ≤ scanRight front v left right hright := by
  fun_induction scanRight front v left right hright with
  | case1 _ _ hlt _ ih => exact ih (by omega)
  | case2 => exact hle
  | case3 => exact hle

/-- The right pointer has passed elements that are not in front. -/
theorem not_front_of_scanRight_lt {i : ℕ} (hlt : scanRight front v left right hright < i)
    (hle : i ≤ right) (hi : i < n) : front v[i] = false := by
  fun_induction scanRight front v left right hright with
  | case1 right _ _ hfront ih =>
      rcases Nat.eq_or_lt_of_le hle with rfl | hgt
      · simpa using hfront
      · exact ih hlt (by omega)
  | case2 => omega
  | case3 => omega

/-- It stands at an element that is. -/
theorem front_of_scanRight_eq {i : ℕ} (heq : scanRight front v left right hright = i)
    (hlt : left < i) (hi : i < n) : front v[i] = true := by
  fun_induction scanRight front v left right hright with
  | case1 _ _ _ _ ih => exact ih heq
  | case2 _ _ _ hfront =>
      subst heq
      simpa using hfront
  | case3 => omega

/-- Whether an element has to go to the back. -/
def misplaced (front : α → Bool) (v : Vector α n) (i : ℕ) : ℕ :=
  if h : i < n then (!front v[i]).toNat else 0

/-- What a round brings nearer to zero: if no pointer moves, then the exchange lets the left one
move in the next round. -/
theorem round_lt {l r : ℕ} (hl : scanLeft front v left right hright = l)
    (hr : scanRight front v l right hright = r) (hlt : left < right) (hmeet : l < r)
    (hrn : r < n) :
    2 * (r - l) + misplaced front (v.swap l r (hmeet.trans hrn) hrn) l <
      2 * (right - left) + misplaced front v left := by
  have hleft : left ≤ l := hl ▸ le_scanLeft
  have hright' : r ≤ right := hr ▸ scanRight_le
  have hfront : front v[r] = true := front_of_scanRight_eq hr hmeet hrn
  have hswap : misplaced front (v.swap l r (hmeet.trans hrn) hrn) l = 0 := by
    rw [misplaced, dif_pos (hmeet.trans hrn), Vector.getElem_swap_left, hfront]
    rfl
  rw [hswap]
  by_cases hmove : l = left ∧ r = right
  · obtain ⟨rfl, rfl⟩ := hmove
    have hback : front v[l] = false := not_front_of_scanLeft_eq hl hlt
    rw [misplaced, dif_pos (hlt.trans hright), hback]
    exact Nat.lt_succ_self _
  · omega

/-- The elements of the slots from `left` to `right`; the slot where the left pointer ends. -/
def partition (front : α → Bool) (v : Vector α n) (left right : ℕ) (hright : right < n) :
    Vector α n × ℕ :=
  if left < right then
    let l := scanLeft front v left right hright
    let r := scanRight front v l right hright
    if hmeet : l < r then
      partition front (v.swap l r (hmeet.trans scanRight_lt) scanRight_lt) l r scanRight_lt
    else (v, l)
  else (v, left)
termination_by 2 * (right - left) + misplaced front v left
decreasing_by exact round_lt rfl rfl ‹_› hmeet scanRight_lt

section Partition

/-- The slots before `l` hold elements that are in front, and those after `r` up to `last` hold
elements that are not. -/
structure Arranged (front : α → Bool) (v : Vector α n) (l r last : ℕ) : Prop where
  le : l ≤ r
  le_last : r ≤ last
  passed : ∀ i (hi : i < n), i < l → front v[i] = true
  behind : ∀ i (hi : i < n), r < i → i ≤ last → front v[i] = false

/-- Both pointers move. -/
theorem Arranged.scan {last : ℕ} (h : Arranged front v left right last) :
    Arranged front v (scanLeft front v left right hright)
      (scanRight front v (scanLeft front v left right hright) right hright) last where
  le := le_scanRight (scanLeft_le h.le)
  le_last := scanRight_le.trans h.le_last
  passed i hi hlt := by
    by_cases hleft : i < left
    · exact h.passed i hi hleft
    · exact front_of_lt_scanLeft (not_lt.mp hleft) hlt hi
  behind i hi hgt hle := by
    by_cases hright : right < i
    · exact h.behind i hi hright hle
    · exact not_front_of_scanRight_lt hgt (not_lt.mp hright) hi

/-- An exchange of the elements where the pointers stand. -/
theorem Arranged.swap {l r last : ℕ} (h : Arranged front v l r last) (hlt : l < r)
    (hrn : r < n) : Arranged front (v.swap l r (hlt.trans hrn) hrn) l r last where
  le := h.le
  le_last := h.le_last
  passed i hi hil := by
    rw [Vector.getElem_swap_of_ne hil.ne (hil.trans hlt).ne]
    exact h.passed i hi hil
  behind i hi hri hle := by
    rw [Vector.getElem_swap_of_ne (hlt.trans hri).ne' hri.ne']
    exact h.behind i hi hri hle

/-- Where the left pointer ends. -/
theorem Arranged.partition {last : ℕ} (h : Arranged front v left right last)
    (hright : right < n) :
    Arranged front (TwoPointer.partition front v left right hright).1
      (TwoPointer.partition front v left right hright).2
      (TwoPointer.partition front v left right hright).2 last := by
  fun_induction TwoPointer.partition front v left right hright with
  | case1 v left right hright hlt l r hmeet ih => exact ih (h.scan.swap hmeet scanRight_lt)
  | case2 v left right hright hlt l r hmeet =>
      have hscan : Arranged front v l r last := h.scan
      have heq : r = l := (not_lt.mp hmeet).antisymm hscan.le
      rwa [heq] at hscan
  | case3 v left right hright hlt =>
      have heq : right = left := (not_lt.mp hlt).antisymm h.le
      rwa [heq] at h

theorem perm_partition (front : α → Bool) (v : Vector α n) (hright : right < n) :
    (partition front v left right hright).1.Perm v := by
  fun_induction partition front v left right hright with
  | case1 v left right hright hlt l r hmeet ih =>
      exact ih.trans (Vector.swap_perm (hmeet.trans scanRight_lt) scanRight_lt)
  | case2 => exact .refl _
  | case3 => exact .refl _

/-- The slots after `right` are not touched. -/
theorem partition_of_lt {i : ℕ} (hlt : right < i) (hi : i < n) :
    (partition front v left right hright).1[i] = v[i] := by
  fun_induction partition front v left right hright with
  | case1 v left right hright hlt' l r hmeet ih =>
      have hri : r < i := scanRight_le.trans_lt hlt
      rw [ih hri, Vector.getElem_swap_of_ne (hmeet.trans hri).ne' hri.ne']
  | case2 => rfl
  | case3 => rfl

/-- Nothing is exchanged if no element that is in front stands behind one that is not. -/
theorem partition_of_forall_lt
    (h : ∀ i j (hi : i < n) (hj : j < n), i < j → j ≤ right → front v[j] = true → front v[i] = true)
    (hright : right < n) : (partition front v left right hright).1 = v := by
  fun_induction partition front v left right hright with
  | case1 v left right hright hlt l r hmeet =>
      have hrn : r < n := scanRight_lt
      have hle : r ≤ right := scanRight_le
      have hfront : front v[r] = true := front_of_scanRight_eq rfl hmeet hrn
      have hback : front v[l] = false := not_front_of_scanLeft_eq rfl (hmeet.trans_le hle)
      exact absurd (h l r (hmeet.trans hrn) hrn hmeet hle hfront) (by simp [hback])
  | case2 => rfl
  | case3 => rfl

end Partition

section Groups

theorem filter_eq_take {l : List α} {c : ℕ} (hfront : ∀ x ∈ l.take c, front x = true)
    (hback : ∀ x ∈ l.drop c, front x = false) : l.filter front = l.take c := by
  conv_lhs => rw [← List.take_append_drop c l]
  rw [List.filter_append, List.filter_eq_self.mpr hfront,
    List.filter_eq_nil_iff.mpr (by simpa using hback), List.append_nil]

theorem filter_not_eq_drop {l : List α} {c : ℕ} (hfront : ∀ x ∈ l.take c, front x = true)
    (hback : ∀ x ∈ l.drop c, front x = false) :
    l.filter (fun x => !front x) = l.drop c := by
  conv_lhs => rw [← List.take_append_drop c l]
  rw [List.filter_append, List.filter_eq_nil_iff.mpr (by simpa using hfront),
    List.filter_eq_self.mpr (by simpa using hback), List.nil_append]

/-- The number of elements in front, from where the left pointer ends. -/
def frontCount (front : α → Bool) (result : Vector α n × ℕ) : ℕ :=
  result.2 + if h : result.2 < n then (front result.1[result.2]).toNat else 0

variable (front) (v) {m : ℕ} (hm : m - 1 < n)

/-- The first `m` slots are permuted among themselves. -/
theorem perm_take_partition (hpos : 0 < m) :
    ((partition front v 0 (m - 1) hm).1.toList.take m).Perm (v.toList.take m) ∧
      (partition front v 0 (m - 1) hm).1.toList.drop m = v.toList.drop m := by
  have hdrop : (partition front v 0 (m - 1) hm).1.toList.drop m = v.toList.drop m := by
    apply List.ext_getElem (by simp)
    intro i hi hi'
    rw [List.getElem_drop, List.getElem_drop, Vector.getElem_toList, Vector.getElem_toList]
    exact partition_of_lt (by omega) _
  have hperm : (partition front v 0 (m - 1) hm).1.toList.Perm v.toList :=
    (perm_partition front v hm).toList
  refine ⟨?_, hdrop⟩
  rw [← List.take_append_drop m (partition front v 0 (m - 1) hm).1.toList,
    ← List.take_append_drop m v.toList, hdrop] at hperm
  exact (List.perm_append_right_iff _).mp hperm

/-- The slots before the count hold elements that are in front, and the others up to the `m`-th
hold elements that are not. -/
theorem arranged_frontCount (hpos : 0 < m) :
    frontCount front (partition front v 0 (m - 1) hm) ≤ m ∧
      (∀ i (hi : i < n), i < frontCount front (partition front v 0 (m - 1) hm) →
        front (partition front v 0 (m - 1) hm).1[i] = true) ∧
      ∀ i (hi : i < n), frontCount front (partition front v 0 (m - 1) hm) ≤ i → i < m →
        front (partition front v 0 (m - 1) hm).1[i] = false := by
  have h : Arranged front v 0 (m - 1) (m - 1) := ⟨Nat.zero_le _, le_rfl, nofun, by omega⟩
  have hend := h.partition hm
  have hle := hend.le_last
  have hlt : (partition front v 0 (m - 1) hm).2 < n := hle.trans_lt hm
  rw [frontCount, dif_pos hlt]
  cases hmeet : front (partition front v 0 (m - 1) hm).1[(partition front v 0 (m - 1) hm).2] with
  | true =>
      rw [Bool.toNat_true]
      refine ⟨by omega, fun i hi hlt => ?_, fun i hi hge hlt => hend.behind i hi hge (by omega)⟩
      rcases Nat.lt_succ_iff_lt_or_eq.mp hlt with hlt | rfl
      · exact hend.passed i hi hlt
      · exact hmeet
  | false =>
      rw [Bool.toNat_false, Nat.add_zero]
      refine ⟨by omega, hend.passed, fun i hi hge hlt => ?_⟩
      rcases Nat.eq_or_lt_of_le hge with rfl | hgt
      · exact hmeet
      · exact hend.behind i hi hgt (by omega)

/-- The two groups. -/
theorem groups_partition (hpos : 0 < m) :
    ((partition front v 0 (m - 1) hm).1.toList.take
        (frontCount front (partition front v 0 (m - 1) hm))).Perm
        ((v.toList.take m).filter front) ∧
      (((partition front v 0 (m - 1) hm).1.toList.take m).drop
        (frontCount front (partition front v 0 (m - 1) hm))).Perm
        ((v.toList.take m).filter fun x => !front x) := by
  obtain ⟨hle, hfront, hback⟩ := arranged_frontCount front v hm hpos
  have hperm := (perm_take_partition front v hm hpos).1
  have htake : ∀ x ∈ ((partition front v 0 (m - 1) hm).1.toList.take m).take
      (frontCount front (partition front v 0 (m - 1) hm)), front x = true := by
    intro x hx
    obtain ⟨i, hi, rfl⟩ := List.mem_iff_getElem.mp hx
    simp only [List.length_take, Vector.length_toList] at hi
    simp only [List.getElem_take, Vector.getElem_toList]
    exact hfront i (by omega) (by omega)
  have hdrop : ∀ x ∈ ((partition front v 0 (m - 1) hm).1.toList.take m).drop
      (frontCount front (partition front v 0 (m - 1) hm)), front x = false := by
    intro x hx
    obtain ⟨i, hi, rfl⟩ := List.mem_iff_getElem.mp hx
    simp only [List.length_drop, List.length_take, Vector.length_toList] at hi
    simp only [List.getElem_drop, List.getElem_take, Vector.getElem_toList]
    exact hback _ (by omega) (by omega) (by omega)
  have heq := filter_eq_take htake hdrop
  rw [List.take_take, Nat.min_eq_left hle] at heq
  rw [← heq, ← filter_not_eq_drop htake hdrop]
  exact ⟨hperm.filter _, hperm.filter _⟩

end Groups

end TwoPointer
