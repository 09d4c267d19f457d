import Mathlib.Algebra.BigOperators.Intervals
import Mathlib.Algebra.Order.Group.Multiset
import Mathlib.Logic.Equiv.Basic
import Mathlib.Order.Interval.Finset.Nat

/-!
# Binary heaps by position

The positions of a complete binary tree of `n` nodes are the numbers from one to
`n` in level order: the children of `i` are `2 * i` and `2 * i + 1`, its parent
is `i / 2`. A labelling gives each position its value. The two sifts exchange
labels along a path until a comparison stops them; they never lose a label, and
each of them restores the order from a labelling with one misplaced label.

The comparison is a Boolean `less`. What the sifts do to the order needs a strict
weak order; what they do to the labels does not.
-/

namespace BinaryHeap

variable {β : Type*}

/-- A Boolean comparison that is a strict weak order. -/
structure StrictWeak (less : β → β → Bool) : Prop where
  asymm : ∀ a b, less a b = true → less b a = false
  trans : ∀ a b c, less b a = false → less c b = false → less c a = false

/-- No label precedes the label of its parent. -/
def Ordered (less : β → β → Bool) (n : ℕ) (f : ℕ → β) : Prop :=
  ∀ i, 2 ≤ i → i ≤ n → less (f i) (f (i / 2)) = false

/-- The labelling with the labels of two positions exchanged. -/
def exchange (f : ℕ → β) (i j : ℕ) : ℕ → β := f ∘ Equiv.swap i j

@[simp] theorem exchange_left (f : ℕ → β) (i j : ℕ) : exchange f i j i = f j := by
  simp [exchange]

@[simp] theorem exchange_right (f : ℕ → β) (i j : ℕ) : exchange f i j j = f i := by
  simp [exchange]

theorem exchange_of_ne (f : ℕ → β) {i j k : ℕ} (hi : k ≠ i) (hj : k ≠ j) :
    exchange f i j k = f k := by
  rw [exchange, Function.comp_apply, Equiv.swap_apply_of_ne_of_ne hi hj]

@[simp] theorem exchange_self (f : ℕ → β) (i : ℕ) : exchange f i i = f := by
  simp [exchange]

/-- The labels of the first `n` positions, with their multiplicities. -/
def contents (n : ℕ) (f : ℕ → β) : Multiset β := ∑ i ∈ Finset.Icc 1 n, {f i}

theorem mem_contents {n : ℕ} {f : ℕ → β} {b : β} :
    b ∈ contents n f ↔ ∃ i, 1 ≤ i ∧ i ≤ n ∧ f i = b := by
  simp only [contents, Multiset.mem_sum, Finset.mem_Icc, Multiset.mem_singleton]
  constructor
  · rintro ⟨i, ⟨hi, hn⟩, hb⟩
    exact ⟨i, hi, hn, hb.symm⟩
  · rintro ⟨i, hi, hn, hb⟩
    exact ⟨i, ⟨hi, hn⟩, hb.symm⟩

theorem contents_succ (n : ℕ) (f : ℕ → β) :
    contents (n + 1) f = contents n f + {f (n + 1)} := by
  rw [contents, contents, Finset.sum_Icc_succ_top (Nat.le_add_left 1 n)]

theorem contents_congr {n : ℕ} {f g : ℕ → β} (h : ∀ i, 1 ≤ i → i ≤ n → f i = g i) :
    contents n f = contents n g := by
  apply Finset.sum_congr rfl
  intro i hi
  rw [h i (Finset.mem_Icc.mp hi).1 (Finset.mem_Icc.mp hi).2]

/-- An exchange within the positions keeps the labels. -/
theorem contents_exchange {n : ℕ} (f : ℕ → β) {i j : ℕ} (hi : 1 ≤ i ∧ i ≤ n)
    (hj : 1 ≤ j ∧ j ≤ n) :
    contents n (exchange f i j) = contents n f := by
  apply Finset.sum_equiv (Equiv.swap i j)
  · intro k
    by_cases hki : k = i
    · rw [hki, Equiv.swap_apply_left, Finset.mem_Icc, Finset.mem_Icc]
      exact iff_of_true hi hj
    · by_cases hkj : k = j
      · rw [hkj, Equiv.swap_apply_right, Finset.mem_Icc, Finset.mem_Icc]
        exact iff_of_true hj hi
      · rw [Equiv.swap_apply_of_ne_of_ne hki hkj]
  · intro k _
    rfl

section Sifts

variable (less : β → β → Bool)

/-- The label at `i` moves up until its parent precedes it. -/
def siftUp (f : ℕ → β) (i : ℕ) : ℕ → β :=
  if i ≤ 1 then f
  else if less (f (i / 2)) (f i) then f
  else siftUp (exchange f i (i / 2)) (i / 2)
termination_by i
decreasing_by omega

/-- The position among `i` and its children whose label goes to `i`: the left
child is tried first. -/
def chosen (n : ℕ) (f : ℕ → β) (i : ℕ) : ℕ :=
  let c := if 2 * i ≤ n ∧ less (f (2 * i)) (f i) = true then 2 * i else i
  if 2 * i + 1 ≤ n ∧ less (f (2 * i + 1)) (f c) = true then 2 * i + 1 else c

theorem chosen_cases (n : ℕ) (f : ℕ → β) (i : ℕ) :
    chosen less n f i = i ∨
      (chosen less n f i = 2 * i ∨ chosen less n f i = 2 * i + 1) ∧ chosen less n f i ≤ n := by
  simp only [chosen]
  split_ifs with hleft hright hright
  · exact .inr ⟨.inr rfl, hright.1⟩
  · exact .inr ⟨.inl rfl, hleft.1⟩
  · exact .inr ⟨.inr rfl, hright.1⟩
  · exact .inl rfl

theorem chosen_bounds {n : ℕ} {f : ℕ → β} {i : ℕ} (h : chosen less n f i ≠ i) :
    i < chosen less n f i ∧ chosen less n f i ≤ n := by
  obtain hsame | ⟨hchild, hn⟩ := chosen_cases less n f i
  · exact absurd hsame h
  · refine ⟨?_, hn⟩
    obtain hleft | hright := hchild
    · rw [hleft] at h ⊢
      omega
    · rw [hright]
      omega

/-- The label at `i` moves down until no child precedes it. -/
def siftDown (n : ℕ) (f : ℕ → β) (i : ℕ) : ℕ → β :=
  if chosen less n f i = i then f
  else siftDown n (exchange f i (chosen less n f i)) (chosen less n f i)
termination_by n - i
decreasing_by
  rename_i h
  have := chosen_bounds less h
  omega

variable {less}

theorem contents_siftUp {n : ℕ} (f : ℕ → β) {i : ℕ} (hi : 1 ≤ i ∧ i ≤ n) :
    contents n (siftUp less f i) = contents n f := by
  induction f, i using siftUp.induct less with
  | case1 f i hroot => rw [siftUp, if_pos hroot]
  | case2 f i hroot hless => rw [siftUp, if_neg hroot, if_pos hless]
  | case3 f i hroot hless ih =>
      rw [siftUp, if_neg hroot, if_neg hless, ih (by omega),
        contents_exchange f hi (by omega)]

theorem contents_siftDown {n : ℕ} (f : ℕ → β) {i : ℕ} (hi : 1 ≤ i) :
    contents n (siftDown less n f i) = contents n f := by
  induction f, i using siftDown.induct less n with
  | case1 f i hstay => rw [siftDown, if_pos hstay]
  | case2 f i hmove ih =>
      have hbounds := chosen_bounds less hmove
      rw [siftDown, if_neg hmove, ih (by omega), contents_exchange f (by omega) (by omega)]

end Sifts

section Order

variable {less : β → β → Bool} {n : ℕ} {f : ℕ → β} {i : ℕ}

/-- Every label is in order with its parent but the one at `i`, whose children
are in order with its parent. -/
structure UpOrdered (less : β → β → Bool) (n : ℕ) (f : ℕ → β) (i : ℕ) : Prop where
  edge : ∀ j, 2 ≤ j → j ≤ n → j ≠ i → less (f j) (f (j / 2)) = false
  skip : ∀ j, j ≤ n → j / 2 = i → 2 ≤ i → less (f j) (f (i / 2)) = false

/-- Every label is in order with its parent but the children of `i`, which are
in order with the parent of `i`. -/
structure DownOrdered (less : β → β → Bool) (n : ℕ) (f : ℕ → β) (i : ℕ) : Prop where
  edge : ∀ j, 2 ≤ j → j ≤ n → j / 2 ≠ i → less (f j) (f (j / 2)) = false
  skip : ∀ j, j ≤ n → j / 2 = i → 2 ≤ i → less (f j) (f (i / 2)) = false

theorem StrictWeak.irrefl (h : StrictWeak less) (a : β) : less a a = false := by
  cases haa : less a a with
  | false => rfl
  | true => exact (haa.symm.trans (h.asymm a a haa))

theorem UpOrdered.move (hless : StrictWeak less) (h : UpOrdered less n f i) (hi : 2 ≤ i)
    (hn : i ≤ n) (hswap : less (f (i / 2)) (f i) = false) :
    UpOrdered less n (exchange f i (i / 2)) (i / 2) where
  edge j hj hjn hne := by
    by_cases hji : j = i
    · rw [hji, exchange_left, exchange_right]
      exact hswap
    · rw [exchange_of_ne f hji hne]
      by_cases hchild : j / 2 = i
      · rw [hchild, exchange_left]
        exact h.skip j hjn hchild hi
      · by_cases hsibling : j / 2 = i / 2
        · rw [hsibling, exchange_right]
          have hparent := h.edge j hj hjn hji
          rw [hsibling] at hparent
          exact hless.trans _ _ _ hswap hparent
        · rw [exchange_of_ne f hchild hsibling]
          exact h.edge j hj hjn hji
  skip j hjn hchild hp := by
    have hparent : less (f (i / 2)) (f (i / 2 / 2)) = false :=
      h.edge (i / 2) hp (by omega) (by omega)
    rw [exchange_of_ne f (show i / 2 / 2 ≠ i by omega) (show i / 2 / 2 ≠ i / 2 by omega)]
    by_cases hji : j = i
    · rw [hji, exchange_left]
      exact hparent
    · rw [exchange_of_ne f hji (by omega)]
      have hedge := h.edge j (by omega) hjn hji
      rw [hchild] at hedge
      exact hless.trans _ _ _ hparent hedge

/-- A label moved up from a place where only its own edge may be wrong. -/
theorem siftUp_ordered (hless : StrictWeak less) (h : UpOrdered less n f i) (hn : i ≤ n) :
    Ordered less n (siftUp less f i) := by
  induction f, i using siftUp.induct less with
  | case1 f i hroot =>
      rw [siftUp, if_pos hroot]
      intro j hj hjn
      exact h.edge j hj hjn (by omega)
  | case2 f i hroot hstop =>
      rw [siftUp, if_neg hroot, if_pos hstop]
      intro j hj hjn
      by_cases hji : j = i
      · rw [hji]
        exact hless.asymm _ _ hstop
      · exact h.edge j hj hjn hji
  | case3 f i hroot hswap ih =>
      rw [siftUp, if_neg hroot, if_neg hswap]
      exact ih (h.move hless (by omega) hn (Bool.eq_false_iff.mpr hswap)) (by omega)

/-- The chosen label is the smallest of the three. -/
theorem chosen_least (hless : StrictWeak less) (n : ℕ) (f : ℕ → β) (i : ℕ) :
    less (f i) (f (chosen less n f i)) = false ∧
      ∀ j, j ≤ n → j = 2 * i ∨ j = 2 * i + 1 →
        less (f j) (f (chosen less n f i)) = false := by
  have hfirst : ∀ c, c = (if 2 * i ≤ n ∧ less (f (2 * i)) (f i) = true then 2 * i else i) →
      less (f i) (f c) = false ∧ (2 * i ≤ n → less (f (2 * i)) (f c) = false) := by
    intro c hc
    split_ifs at hc with hleft
    · subst hc
      exact ⟨hless.asymm _ _ hleft.2, fun _ => hless.irrefl _⟩
    · subst hc
      refine ⟨hless.irrefl _, fun hn => ?_⟩
      exact Bool.eq_false_iff.mpr fun htrue => hleft ⟨hn, htrue⟩
  obtain ⟨hself, hleft⟩ := hfirst _ rfl
  simp only [chosen]
  generalize (if 2 * i ≤ n ∧ less (f (2 * i)) (f i) = true then 2 * i else i) = c at hself hleft ⊢
  split_ifs with hright
  · have hbelow := hless.asymm _ _ hright.2
    refine ⟨hless.trans _ _ _ hbelow hself, ?_⟩
    rintro j hjn (rfl | rfl)
    · exact hless.trans _ _ _ hbelow (hleft hjn)
    · exact hless.irrefl _
  · refine ⟨hself, ?_⟩
    rintro j hjn (rfl | rfl)
    · exact hleft hjn
    · exact Bool.eq_false_iff.mpr fun htrue => hright ⟨hjn, htrue⟩

theorem DownOrdered.move (hless : StrictWeak less) (h : DownOrdered less n f i) (hi : 1 ≤ i)
    (hmove : chosen less n f i ≠ i) :
    DownOrdered less n (exchange f i (chosen less n f i)) (chosen less n f i) := by
  obtain ⟨hself, hchildren⟩ := chosen_least hless n f i
  obtain hsame | ⟨hchild, hcn⟩ := chosen_cases less n f i
  · exact absurd hsame hmove
  generalize chosen less n f i = c at hself hchildren hchild hcn hmove ⊢
  have hhalf : c / 2 = i := by omega
  constructor
  · intro j hj hjn hne
    by_cases hjc : j = c
    · rw [hjc, hhalf, exchange_left, exchange_right]
      exact hself
    · by_cases hji : j = i
      · rw [hji, exchange_left, exchange_of_ne f (by omega) (by omega)]
        exact h.skip c hcn hhalf (by omega)
      · rw [exchange_of_ne f hji hjc]
        by_cases hsibling : j / 2 = i
        · rw [hsibling, exchange_left]
          exact hchildren j hjn (by omega)
        · rw [exchange_of_ne f hsibling hne]
          exact h.edge j hj hjn hsibling
  · intro j hjn hbelow _
    rw [hhalf, exchange_left, exchange_of_ne f (by omega) (by omega), ← hbelow]
    exact h.edge j (by omega) hjn (by omega)

/-- A label moved down from a place where only the edges to its children may be wrong. -/
theorem siftDown_ordered (hless : StrictWeak less) (h : DownOrdered less n f i) (hi : 1 ≤ i) :
    Ordered less n (siftDown less n f i) := by
  induction f, i using siftDown.induct less n with
  | case1 f i hstay =>
      rw [siftDown, if_pos hstay]
      obtain ⟨-, hchildren⟩ := chosen_least hless n f i
      rw [hstay] at hchildren
      intro j hj hjn
      by_cases hchild : j / 2 = i
      · rw [hchild]
        exact hchildren j hjn (by omega)
      · exact h.edge j hj hjn hchild
  | case2 f i hmove ih =>
      rw [siftDown, if_neg hmove]
      have hbounds := chosen_bounds less hmove
      exact ih (h.move hless hi hmove) (by omega)

/-- A new last label moved up. -/
theorem Ordered.insert (hless : StrictWeak less) (h : Ordered less n f) (b : β) :
    Ordered less (n + 1) (siftUp less (Function.update f (n + 1) b) (n + 1)) := by
  refine siftUp_ordered hless ⟨fun j hj hjn hne => ?_, fun j hjn hchild _ => ?_⟩ (le_refl _)
  · rw [Function.update_of_ne hne, Function.update_of_ne (by omega)]
    exact h j hj (by omega)
  · omega

/-- The last label put at `i` in place of the label there and moved down, where
it is in order with the parent of `i`. -/
theorem Ordered.replace (hless : StrictWeak less) (h : Ordered less (n + 1) f)
    (hi : 1 ≤ i ∧ i ≤ n + 1)
    (habove : i = 1 ∨ i = n + 1 ∨ less (f (n + 1)) (f (i / 2)) = false) :
    Ordered less n (siftDown less n (exchange f i (n + 1)) i) := by
  refine siftDown_ordered hless ⟨fun j hj hjn hchild => ?_, fun j hjn hchild hi' => ?_⟩ hi.1
  · by_cases hji : j = i
    · rw [hji, exchange_left, exchange_of_ne f (by omega) (by omega)]
      obtain rfl | rfl | hlast := habove
      · omega
      · omega
      · exact hlast
    · rw [exchange_of_ne f hji (by omega), exchange_of_ne f hchild (by omega)]
      exact h j hj (by omega)
  · rw [exchange_of_ne f (by omega) (by omega), exchange_of_ne f (by omega) (by omega)]
    have hedge := h j (by omega) (by omega)
    rw [hchild] at hedge
    exact hless.trans _ _ _ (h i hi' hi.2) hedge

/-- The condition is needed: a label that precedes the parent of `i` stays at `i`. -/
theorem Ordered.replace_iff (hless : StrictWeak less) (h : Ordered less (n + 1) f)
    (hi : 1 ≤ i ∧ i ≤ n + 1) :
    Ordered less n (siftDown less n (exchange f i (n + 1)) i) ↔
      i = 1 ∨ i = n + 1 ∨ less (f (n + 1)) (f (i / 2)) = false := by
  refine ⟨fun hordered => ?_, h.replace hless hi⟩
  by_contra habove
  rw [not_or, not_or, Bool.not_eq_false] at habove
  obtain ⟨hroot, hlast, hbelow⟩ := habove
  have hchild : ∀ j, j ≤ n → j / 2 = i →
      less (exchange f i (n + 1) j) (exchange f i (n + 1) i) = false := by
    intro j hjn hji
    rw [exchange_left, exchange_of_ne f (by omega) (by omega)]
    have hedge := h j (by omega) (by omega)
    rw [hji] at hedge
    exact hless.trans _ _ _ (hless.asymm _ _ hbelow)
      (hless.trans _ _ _ (h i (by omega) hi.2) hedge)
  have hstay : chosen less n (exchange f i (n + 1)) i = i := by
    simp only [chosen]
    rw [if_neg fun hleft : 2 * i ≤ n ∧ _ => by
        rw [hchild _ hleft.1 (by omega)] at hleft
        exact absurd hleft.2 (by decide),
      if_neg fun hright => by
        rw [hchild _ hright.1 (by omega)] at hright
        exact absurd hright.2 (by decide)]
  rw [siftDown, if_pos hstay] at hordered
  have hedge := hordered i (by omega) (by omega)
  rw [exchange_left, exchange_of_ne f (by omega) (by omega), hbelow] at hedge
  cases hedge

/-- No label precedes the label of the root. -/
theorem Ordered.root_least (hless : StrictWeak less) (h : Ordered less n f) (hi : 1 ≤ i)
    (hn : i ≤ n) : less (f i) (f 1) = false := by
  induction i using Nat.strongRec with
  | ind i ih =>
      by_cases hroot : i = 1
      · rw [hroot]
        exact hless.irrefl _
      · exact hless.trans _ _ _ (ih (i / 2) (by omega) (by omega) (by omega))
          (h i (by omega) hn)

end Order

end BinaryHeap
