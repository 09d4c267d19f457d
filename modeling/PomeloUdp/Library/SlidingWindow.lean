import Mathlib.Algebra.BigOperators.Fin
import Mathlib.Algebra.Order.Chebyshev
import Mathlib.Data.List.Rotate

/-!
# The last values of a sequence

`push` takes the oldest value of a window out and puts a new one behind the others. A window
is filled with the first value of a sequence and gets the later ones one after the other.

A circular buffer holds the same values from its index on: writing at the index and moving it
on is `push` (`rotate_set`). So a sum over the window is kept by adding what comes in and
subtracting what goes out (`sum_map_push`).
-/

namespace SlidingWindow

variable {α β : Type*}

/-- The window with one more value. -/
def push (w : List α) (value : α) : List α := w.tail ++ [value]

/-- The last `n` values of a sequence with a first value, which stands for the missing ones. -/
def window (n : ℕ) (first : α) (values : List α) : List α :=
  values.foldl push (List.replicate n first)

section Push

variable {w : List α} {value : α}

theorem length_push (hw : w ≠ []) : (push w value).length = w.length := by
  have hpos := List.length_pos_iff.mpr hw
  rw [push, List.length_append, List.length_tail, List.length_singleton]
  omega

theorem map_push (f : α → β) : (push w value).map f = push (w.map f) (f value) := by
  simp [push]

theorem sum_push [AddCommGroup α] (hw : w ≠ []) :
    (push w value).sum = w.sum + value - w.head hw := by
  obtain ⟨first, rest, rfl⟩ := List.exists_cons_of_ne_nil hw
  rw [push, List.tail_cons, List.sum_append, List.sum_singleton, List.sum_cons, List.head_cons,
    add_assoc, add_sub_cancel_left]

/-- What a sum over the window changes by. -/
theorem sum_map_push [AddCommGroup β] (f : α → β) (hw : w ≠ []) :
    ((push w value).map f).sum = (w.map f).sum + f value - f (w.head hw) := by
  rw [map_push, sum_push (by simpa using hw), List.head_map]

end Push

section Window

theorem length_foldl_push {w : List α} (hw : w ≠ []) (values : List α) :
    (values.foldl push w).length = w.length := by
  induction values generalizing w with
  | nil => rfl
  | cons value values ih =>
      rw [List.foldl_cons, ih (by simp [push]), length_push hw]

theorem length_window {n : ℕ} (hn : 0 < n) (first : α) (values : List α) :
    (window n first values).length = n := by
  rw [window, length_foldl_push (by simpa using hn.ne'), List.length_replicate]

theorem foldl_push_eq_drop {w : List α} (hw : w ≠ []) (values : List α) :
    values.foldl push w = (w ++ values).drop values.length := by
  induction values generalizing w with
  | nil => simp
  | cons value values ih =>
      obtain ⟨first, rest, rfl⟩ := List.exists_cons_of_ne_nil hw
      rw [List.foldl_cons, ih (by simp [push])]
      simp [push]

/-- The window is the end of the sequence. -/
theorem window_eq_drop {n : ℕ} (hn : 0 < n) (first : α) (values : List α) :
    window n first values = (List.replicate n first ++ values).drop values.length :=
  foldl_push_eq_drop (by simpa using hn.ne') values

/-- The first value stands for no missing one if the sequence is long enough. -/
theorem window_eq_drop_of_le {n : ℕ} (hn : 0 < n) {first : α} {values : List α}
    (hle : n ≤ values.length + 1) :
    window n first values = (first :: values).drop (values.length + 1 - n) := by
  have hdrop : values.length = (n - 1) + (values.length + 1 - n) := by omega
  have hreplicate : List.replicate n first = List.replicate (n - 1) first ++ [first] := by
    rw [← List.replicate_succ', Nat.sub_add_cancel hn]
  conv_lhs => rw [window_eq_drop hn, hdrop, ← List.drop_drop]
  rw [hreplicate, List.append_assoc, List.singleton_append,
    List.drop_left' (List.length_replicate ..)]

theorem mem_window {n : ℕ} (hn : 0 < n) {first : α} {values : List α} {x : α}
    (hx : x ∈ window n first values) : x = first ∨ x ∈ values := by
  rw [window_eq_drop hn] at hx
  rcases List.mem_append.mp (List.mem_of_mem_drop hx) with hx | hx
  · exact .inl (List.eq_of_mem_replicate hx)
  · exact .inr hx

end Window

section Circular

variable {l : List α} {i : ℕ}

theorem rotate_ne_nil (hi : i < l.length) : l.rotate i ≠ [] := by
  rw [Ne, List.rotate_eq_nil_iff]
  exact List.ne_nil_of_length_pos (Nat.zero_lt_of_lt hi)

/-- The value at the index is the oldest one. -/
theorem head_rotate (hi : i < l.length) : (l.rotate i).head (rotate_ne_nil hi) = l[i] := by
  rw [List.head_eq_getElem, List.getElem_rotate]
  simp [Nat.mod_eq_of_lt hi]

/-- Writing at the index and moving it on. -/
theorem rotate_set (hi : i < l.length) (value : α) :
    (l.set i value).rotate ((i + 1) % l.length) = push (l.rotate i) value := by
  have hlength : l.length = (l.set i value).length := by simp
  conv_lhs => rw [hlength, List.rotate_mod]
  have htail : (l.drop i ++ l.take i).tail = l.drop (i + 1) ++ l.take i := by
    rw [List.drop_eq_getElem_cons hi, List.cons_append, List.tail_cons]
  rw [List.rotate_eq_drop_append_take (by simpa using hi),
    List.rotate_eq_drop_append_take (Nat.le_of_lt hi), push, htail, List.take_set,
    List.drop_set_of_lt (Nat.lt_succ_self i), List.take_succ_eq_append_getElem hi,
    List.set_append_right _ _ (by simp)]
  simp [Nat.min_eq_left (Nat.le_of_lt hi)]

end Circular

/-- The square of a sum is at most the number of summands times the sum of the squares. -/
theorem sq_sum_le (w : List ℤ) : w.sum ^ 2 ≤ w.length * (w.map (· ^ 2)).sum := by
  have hsum : w.sum = ∑ i : Fin w.length, w[i] := (Fin.sum_univ_getElem w).symm
  have hsquares : (w.map (· ^ 2)).sum = ∑ i : Fin w.length, w[i] ^ 2 := by
    rw [← Fin.sum_univ_fun_getElem]
    rfl
  rw [hsum, hsquares]
  simpa using sq_sum_le_card_mul_sum_sq (s := Finset.univ) (f := fun i : Fin w.length => w[i])

end SlidingWindow
