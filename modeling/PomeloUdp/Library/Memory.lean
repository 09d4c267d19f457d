import Mathlib.Data.List.Basic
import Mathlib.Data.Nat.Notation

/-!
# Cells of a memory

A memory is a function from addresses to cells. `load` reads a block of it as a
list and `store` writes a list into it; cells outside the block keep their
values. Two stores in a row are one store of the longer list, and a store over a
block hides a shorter one before it.
-/

namespace Memory

variable {α : Type*} (m : ℕ → α) (a b n k i : ℕ) (xs ys : List α)

/-- The `n` cells from address `a` on. -/
def load : List α := (List.range n).map fun i => m (a + i)

/-- The same cells as an array. -/
def loadVector : Vector α n := .ofFn fun i => m (a + i)

/-- The memory with a list written from address `a` on. -/
def store : ℕ → α := fun i => if i < a then m i else xs[i - a]?.getD (m i)

@[simp] theorem length_load : (load m a n).length = n := by
  simp [load]

theorem load_add : load m a (n + k) = load m a n ++ load m (a + n) k := by
  simp only [load, List.range_add, List.map_append, List.map_map]
  congr 1
  apply List.map_congr_left
  intro i _
  simp [Nat.add_assoc]

/-- A block depends on its own cells only. -/
theorem load_congr {m m' : ℕ → α} {a n : ℕ} (h : ∀ i, a ≤ i → i < a + n → m i = m' i) :
    load m a n = load m' a n := by
  apply List.map_congr_left
  intro i hi
  have hlt := List.mem_range.mp hi
  exact h (a + i) (by omega) (by omega)

theorem drop_load : (load m a n).drop k = load m (a + k) (n - k) := by
  apply List.ext_getElem
  · simp
  · intro i hi hi'
    simp [load, Nat.add_assoc]

theorem toList_loadVector : (loadVector m a n).toList = load m a n := by
  rw [loadVector, Vector.toList_ofFn]
  apply List.ext_getElem
  · simp
  · intro i hi hi'
    simp [load]

theorem loadVector_eq {m : ℕ → α} {a n : ℕ} {v : Vector α n} (h : load m a n = v.toList) :
    loadVector m a n = v := by
  rw [← Vector.toList_inj, ← h, toList_loadVector]

@[simp] theorem store_nil : store m a [] = m := by
  funext i
  simp [store]

/-- A cell outside the block that is written. -/
theorem store_outside {m : ℕ → α} {a i : ℕ} {xs : List α} (h : i < a ∨ a + xs.length ≤ i) :
    store m a xs i = m i := by
  unfold store
  split
  · rfl
  · rw [List.getElem?_eq_none (by omega)]
    rfl

/-- What was written is read back. -/
theorem load_store : load (store m a xs) a xs.length = xs := by
  apply List.ext_getElem
  · simp
  · intro i hi hi'
    simp only [load, store, List.getElem_map, List.getElem_range]
    rw [if_neg (by omega), Nat.add_sub_cancel_left, List.getElem?_eq_getElem hi']
    rfl

/-- Reading less than was written. -/
theorem load_store_take {m : ℕ → α} {a n : ℕ} {xs : List α} (h : n ≤ xs.length) :
    load (store m a xs) a n = xs.take n := by
  have hall := load_store m a xs
  rw [← Nat.add_sub_cancel' h, load_add] at hall
  rw [← hall, List.take_left' (by simp), hall]

/-- Writing one list after the other is writing both. -/
theorem store_store : store (store m a xs) (a + xs.length) ys = store m a (xs ++ ys) := by
  funext i
  unfold store
  by_cases hfirst : i < a
  · simp [hfirst, show i < a + xs.length by omega]
  · by_cases hsecond : i < a + xs.length
    · simp [hfirst, hsecond, List.getElem?_append_left (show i - a < xs.length by omega)]
    · rw [if_neg hsecond, if_neg hfirst, if_neg hfirst,
        List.getElem?_append_right (show xs.length ≤ i - a by omega),
        List.getElem?_eq_none (l := xs) (by omega), show i - (a + xs.length) = i - a - xs.length by
          omega]
      rfl

/-- Writing over a block. -/
theorem store_over {m : ℕ → α} {a : ℕ} {xs ys : List α} (h : xs.length ≤ ys.length) :
    store (store m a xs) a ys = store m a ys := by
  funext i
  unfold store
  by_cases hfirst : i < a
  · simp [hfirst]
  · simp only [hfirst, if_false]
    by_cases hsecond : i - a < ys.length
    · simp [hsecond]
    · rw [List.getElem?_eq_none (l := ys) (by omega), List.getElem?_eq_none (l := xs) (by omega)]
      rfl

end Memory
