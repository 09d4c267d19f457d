import Mathlib.Data.Nat.Bitwise
import PomeloUdp.Library.BinaryHeap
import PomeloUdp.Utils.Heap

/-!
# The heap in level order

A layout of a heap names the node at each position of a complete binary tree and
the entry at each of these nodes. The links of the nodes follow the arithmetic of
the positions, so the walk along the binary digits of a size ends at the node of
that position. The sifts of the heap are the sifts of `BinaryHeap` on the entries
of the layout; the nodes stay where they are. A push appends a position, a removal
drops the last one.
-/

namespace PomeloUdp

namespace Utils

open BinaryHeap

variable {α : Type}

/-- The node of one of the first `n` positions. -/
def position (n : ℕ) (node : ℕ → ℕ) (i : ℕ) : Option ℕ :=
  if 1 ≤ i ∧ i ≤ n then some (node i) else none

theorem position_of_mem {n i : ℕ} (node : ℕ → ℕ) (hi : 1 ≤ i ∧ i ≤ n) :
    position n node i = some (node i) :=
  if_pos hi

theorem position_of_lt {n i : ℕ} (node : ℕ → ℕ) (hi : n < i) : position n node i = none :=
  if_neg fun h => absurd h.2 (Nat.not_le.mpr hi)

@[simp] theorem position_zero (n : ℕ) (node : ℕ → ℕ) : position n node 0 = none :=
  if_neg fun h => absurd h.1 (by decide)

theorem position_update (n : ℕ) (node : ℕ → ℕ) (new i : ℕ) :
    position (n + 1) (Function.update node (n + 1) new) i =
      if i = n + 1 then some new else position n node i := by
  by_cases hi : i = n + 1
  · rw [if_pos hi, hi, position_of_mem _ (by omega), Function.update_self]
  · rw [if_neg hi, position, position, Function.update_of_ne hi]
    exact if_congr (by omega) rfl rfl

theorem position_succ_of_ne {n i : ℕ} (node : ℕ → ℕ) (hi : i ≠ n + 1) :
    position (n + 1) node i = position n node i :=
  if_congr (by omega) rfl rfl

namespace Heap

section Memory

variable (h : Heap α)

@[simp] theorem modifyNode_nodes (node : ℕ) (f : HeapNode → HeapNode) (k : ℕ) :
    (h.modifyNode node f).nodes k = if k = node then f (h.nodes k) else h.nodes k := by
  simp only [modifyNode, Function.update_apply]
  split_ifs with hk
  · rw [hk]
  · rfl

@[simp] theorem modifyNode_entries (node : ℕ) (f : HeapNode → HeapNode) :
    (h.modifyNode node f).entries = h.entries := rfl

@[simp] theorem modifyNode_entryUsed (node : ℕ) (f : HeapNode → HeapNode) :
    (h.modifyNode node f).entryUsed = h.entryUsed := rfl

@[simp] theorem modifyNode_nodeUsed (node : ℕ) (f : HeapNode → HeapNode) :
    (h.modifyNode node f).nodeUsed = h.nodeUsed := rfl

@[simp] theorem modifyNode_root (node : ℕ) (f : HeapNode → HeapNode) :
    (h.modifyNode node f).root = h.root := rfl

@[simp] theorem modifyNode_size (node : ℕ) (f : HeapNode → HeapNode) :
    (h.modifyNode node f).size = h.size := rfl

@[simp] theorem setEntryNode_nodes (entry node : ℕ) :
    (h.setEntryNode entry node).nodes = h.nodes := rfl

@[simp] theorem setEntryNode_entryUsed (entry node : ℕ) :
    (h.setEntryNode entry node).entryUsed = h.entryUsed := rfl

@[simp] theorem setEntryNode_nodeUsed (entry node : ℕ) :
    (h.setEntryNode entry node).nodeUsed = h.nodeUsed := rfl

@[simp] theorem setEntryNode_root (entry node : ℕ) :
    (h.setEntryNode entry node).root = h.root := rfl

@[simp] theorem setEntryNode_size (entry node : ℕ) :
    (h.setEntryNode entry node).size = h.size := rfl

@[simp] theorem setEntryNode_node (entry node k : ℕ) :
    ((h.setEntryNode entry node).entries k).node =
      if k = entry then node else (h.entries k).node := by
  simp only [setEntryNode, Function.update_apply]
  split_ifs <;> rfl

@[simp] theorem setEntryNode_element (entry node k : ℕ) :
    ((h.setEntryNode entry node).entries k).element = (h.entries k).element := by
  simp only [setEntryNode, Function.update_apply]
  split_ifs with hk
  · rw [hk]
  · rfl

/-- The elements behind all entries, in use or not. -/
def elements : ℕ → α := fun entry => (h.entries entry).element

end Memory

/-- What the sifts leave alone. -/
structure Same (h h' : Heap α) : Prop where
  size : h'.size = h.size
  elements : h'.elements = h.elements
  nodeUsed : h'.nodeUsed = h.nodeUsed
  entryUsed : h'.entryUsed = h.entryUsed

theorem Same.refl (h : Heap α) : Same h h := ⟨rfl, rfl, rfl, rfl⟩

theorem Same.trans {h h' h'' : Heap α} (hab : Same h h') (hbc : Same h' h'') : Same h h'' :=
  ⟨hbc.size.trans hab.size, hbc.elements.trans hab.elements, hbc.nodeUsed.trans hab.nodeUsed,
    hbc.entryUsed.trans hab.entryUsed⟩

/-- The links of a complete binary tree of `n` nodes. -/
structure Links (h : Heap α) (n : ℕ) (node : ℕ → ℕ) : Prop where
  root : h.root = position n node 1
  distinct : ∀ i j, 1 ≤ i ∧ i ≤ n → 1 ≤ j ∧ j ≤ n → node i = node j → i = j
  parent : ∀ i, 1 ≤ i ∧ i ≤ n → (h.nodes (node i)).parent = position n node (i / 2)
  left : ∀ i, 1 ≤ i ∧ i ≤ n → (h.nodes (node i)).left = position n node (2 * i)
  right : ∀ i, 1 ≤ i ∧ i ≤ n → (h.nodes (node i)).right = position n node (2 * i + 1)
  next : ∀ i, 1 ≤ i ∧ i ≤ n → (h.nodes (node i)).next = none
  signed : ∀ i, 1 ≤ i ∧ i ≤ n → (h.nodes (node i)).signed = true
  nodeUsed : ∀ i, 1 ≤ i ∧ i ≤ n → h.nodeUsed (node i) = true

/-- A complete binary tree with an entry at every node, and no other entries in use. -/
structure Layout (h : Heap α) (n : ℕ) (node entry : ℕ → ℕ) : Prop extends Links h n node where
  holds : ∀ i, 1 ≤ i ∧ i ≤ n → (h.nodes (node i)).entry = some (entry i)
  back : ∀ i, 1 ≤ i ∧ i ≤ n → (h.entries (entry i)).node = node i
  entryUsed : ∀ i, 1 ≤ i ∧ i ≤ n → h.entryUsed (entry i) = true
  onto : ∀ e, h.entryUsed e = true → ∃ i, (1 ≤ i ∧ i ≤ n) ∧ entry i = e

section Walk

variable {h : Heap α} {n : ℕ} {node : ℕ → ℕ}

theorem Links.node_inj (hl : Links h n node) {i j : ℕ} (hi : 1 ≤ i ∧ i ≤ n)
    (hj : 1 ≤ j ∧ j ≤ n) : node i = node j ↔ i = j :=
  ⟨hl.distinct i j hi hj, fun hij => hij ▸ rfl⟩

theorem Links.child (hl : Links h n node) {pos k : ℕ}
    (hpos : 1 ≤ pos / 2 ^ (k + 1) ∧ pos / 2 ^ (k + 1) ≤ n) :
    h.child (node (pos / 2 ^ (k + 1))) pos (2 ^ k) = position n node (pos / 2 ^ k) := by
  have hhalf : pos / 2 ^ (k + 1) = pos / 2 ^ k / 2 := by
    rw [Nat.pow_succ, Nat.div_div_eq_div_mul]
  have hbit : pos &&& 2 ^ k ≠ 0 ↔ pos / 2 ^ k % 2 = 1 := by
    rw [Nat.and_two_pow, Nat.testBit_eq_decide_div_mod_eq]
    have hpow := Nat.two_pow_pos k
    by_cases hodd : pos / 2 ^ k % 2 = 1
    · simp [hodd]
    · simp [hodd]
  rw [Heap.child]
  by_cases hodd : pos / 2 ^ k % 2 = 1
  · rw [if_pos (hbit.mpr hodd), hl.right _ hpos]
    congr 1
    omega
  · rw [if_neg (fun hset => hodd (hbit.mp hset)), hl.left _ hpos]
    congr 1
    omega

theorem half_pow (k : ℕ) : 2 ^ (k + 1) >>> 1 = 2 ^ k := by
  rw [Nat.shiftRight_eq_div_pow, Nat.pow_succ, Nat.pow_one, Nat.mul_div_cancel _ (by decide)]

theorem prefix_mem {pos k : ℕ} (hpos : pos ≠ 0) (hk : k ≤ Nat.log2 pos) : 1 ≤ pos / 2 ^ k :=
  Nat.div_pos ((Nat.pow_le_pow_right (by decide) hk).trans (Nat.log2_self_le hpos))
    (Nat.two_pow_pos k)

theorem prefix_one {pos : ℕ} (hpos : pos ≠ 0) : pos / 2 ^ Nat.log2 pos = 1 := by
  have hlt : pos / 2 ^ Nat.log2 pos < 2 := by
    rw [Nat.div_lt_iff_lt_mul (Nat.two_pow_pos _), Nat.mul_comm, ← Nat.pow_succ]
    exact Nat.lt_log2_self
  have hle := prefix_mem hpos (le_refl _)
  omega

theorem Links.findNode (hl : Links h n node) {pos : ℕ} (hpos : 1 ≤ pos ∧ pos ≤ n) :
    h.findNode pos (calcLeadingZerosMask pos >>> 1) h.root = some (node pos) := by
  have hwalk : ∀ k, k ≤ Nat.log2 pos →
      h.findNode pos (2 ^ k >>> 1) (position n node (pos / 2 ^ k)) = some (node pos) := by
    intro k
    induction k with
    | zero =>
        intro _
        rw [findNode.eq_def, if_pos (by decide), Nat.pow_zero, Nat.div_one,
          position_of_mem _ hpos]
    | succ k ih =>
        intro hk
        have hmem : 1 ≤ pos / 2 ^ (k + 1) ∧ pos / 2 ^ (k + 1) ≤ n :=
          ⟨prefix_mem (by omega) hk, (Nat.div_le_self _ _).trans hpos.2⟩
        rw [findNode.eq_def, half_pow, if_neg (Nat.two_pow_pos k).ne', position_of_mem _ hmem]
        dsimp only
        rw [hl.child hmem]
        exact ih (by omega)
  have h0 : pos ≠ 0 := by omega
  have hrun := hwalk _ (le_refl _)
  rw [prefix_one h0, ← hl.root] at hrun
  rw [calcLeadingZerosMask, if_neg h0]
  exact hrun

theorem Links.findInsertPosition (hl : Links h n node) (hn : 1 ≤ n) (hsize : h.size = n) :
    h.findInsertPosition = some (node ((n + 1) / 2)) := by
  have hwalk : ∀ k parent, k + 1 ≤ Nat.log2 (n + 1) →
      h.findParent (n + 1) (2 ^ (k + 1) >>> 1) (position n node ((n + 1) / 2 ^ (k + 1))) parent =
        some (node ((n + 1) / 2)) := by
    intro k
    induction k with
    | zero =>
        intro parent _
        rw [half_pow, findParent.eq_def, if_neg (by decide), position_of_mem _ (by omega)]
        dsimp only
        rw [findParent.eq_def, if_pos (by decide), Nat.zero_add, Nat.pow_one]
    | succ k ih =>
        intro parent hk
        have hle : (n + 1) / 2 ^ (k + 1 + 1) ≤ (n + 1) / 2 := by
          apply Nat.div_le_div_left _ (by decide)
          rw [Nat.pow_succ]
          have := Nat.two_pow_pos (k + 1)
          omega
        have hmem : 1 ≤ (n + 1) / 2 ^ (k + 1 + 1) ∧ (n + 1) / 2 ^ (k + 1 + 1) ≤ n :=
          ⟨prefix_mem (by omega) hk, by omega⟩
        rw [half_pow, findParent.eq_def, if_neg (Nat.two_pow_pos _).ne', position_of_mem _ hmem]
        dsimp only
        rw [hl.child hmem]
        exact ih _ (by omega)
  have hlog : 1 ≤ Nat.log2 (n + 1) := by
    rw [Nat.le_log2 (by omega)]
    omega
  obtain ⟨k, hk⟩ := Nat.exists_eq_add_of_le' hlog
  have hrun := hwalk k none (by omega)
  rw [← hk, prefix_one (by omega), ← hl.root] at hrun
  rw [Heap.findInsertPosition, hsize, calcLeadingZerosMask, if_neg (by omega)]
  exact hrun

end Walk

section Sifts

variable {h : Heap α} {n : ℕ} {node entry : ℕ → ℕ}

theorem Layout.entryOf (hl : Layout h n node entry) {i : ℕ} (hi : 1 ≤ i ∧ i ≤ n) :
    h.entryOf (node i) = some (entry i) := by
  rw [Heap.entryOf, hl.holds i hi, Option.filter_some, if_pos (hl.entryUsed i hi)]

theorem Layout.element (hl : Layout h n node entry) {i : ℕ} (hi : 1 ≤ i ∧ i ≤ n) :
    h.element (node i) = some (h.elements (entry i)) := by
  rw [Heap.element, hl.entryOf hi]
  rfl

theorem Layout.entry_inj (hl : Layout h n node entry) {i j : ℕ} (hi : 1 ≤ i ∧ i ≤ n)
    (hj : 1 ≤ j ∧ j ≤ n) : entry i = entry j ↔ i = j := by
  constructor
  · intro hij
    have hback := hl.back i hi
    rw [hij, hl.back j hj] at hback
    exact (hl.distinct j i hj hi hback).symm
  · rintro rfl
    rfl

theorem Layout.swapEntries (hl : Layout h n node entry) {i j : ℕ} (hi : 1 ≤ i ∧ i ≤ n)
    (hj : 1 ≤ j ∧ j ≤ n) :
    ∃ h', h.swapEntries (node i) (node j) = some h' ∧
      Layout h' n node (exchange entry i j) ∧ Same h h' := by
  have hmem : ∀ k, 1 ≤ k ∧ k ≤ n → 1 ≤ Equiv.swap i j k ∧ Equiv.swap i j k ≤ n := by
    intro k hk
    rw [Equiv.swap_apply_def]
    split_ifs
    · exact hj
    · exact hi
    · exact hk
  rw [Heap.swapEntries, hl.entryOf hi, hl.entryOf hj]
  refine ⟨_, rfl, ⟨⟨?_, hl.distinct, ?_, ?_, ?_, ?_, ?_, ?_⟩, ?_, ?_, ?_, ?_⟩, ?_⟩
  · exact hl.root
  · intro k hk
    simp only [setEntryNode_nodes, modifyNode_nodes]
    split_ifs <;> exact hl.parent k hk
  · intro k hk
    simp only [setEntryNode_nodes, modifyNode_nodes]
    split_ifs <;> exact hl.left k hk
  · intro k hk
    simp only [setEntryNode_nodes, modifyNode_nodes]
    split_ifs <;> exact hl.right k hk
  · intro k hk
    simp only [setEntryNode_nodes, modifyNode_nodes]
    split_ifs <;> exact hl.next k hk
  · intro k hk
    simp only [setEntryNode_nodes, modifyNode_nodes]
    split_ifs <;> exact hl.signed k hk
  · exact hl.nodeUsed
  · intro k hk
    simp only [setEntryNode_nodes, modifyNode_nodes, hl.node_inj hk hi, hl.node_inj hk hj]
    by_cases hkj : k = j
    · rw [if_pos hkj, hkj, exchange_right]
    · by_cases hki : k = i
      · rw [if_neg hkj, if_pos hki, hki, exchange_left]
      · rw [if_neg hkj, if_neg hki, exchange_of_ne _ hki hkj]
        exact hl.holds k hk
  · intro k hk
    simp only [setEntryNode_node, modifyNode_entries]
    by_cases hkj : k = j
    · by_cases hij : i = j
      · rw [hkj, ← hij, exchange_left, if_pos rfl]
      · rw [hkj, exchange_right, if_neg (fun he => hij ((hl.entry_inj hi hj).mp he)), if_pos rfl]
    · by_cases hki : k = i
      · rw [hki, exchange_left, if_pos rfl]
      · rw [exchange_of_ne _ hki hkj, if_neg (fun he => hkj ((hl.entry_inj hk hj).mp he)),
          if_neg (fun he => hki ((hl.entry_inj hk hi).mp he))]
        exact hl.back k hk
  · intro k hk
    exact hl.entryUsed _ (hmem k hk)
  · intro e he
    obtain ⟨k, hk, rfl⟩ := hl.onto e he
    refine ⟨Equiv.swap i j k, hmem k hk, ?_⟩
    rw [exchange, Function.comp_apply, Equiv.swap_apply_self]
  · refine ⟨rfl, ?_, rfl, rfl⟩
    funext e
    simp only [elements, setEntryNode_element, modifyNode_entries]

variable (compare : α → α → ℤ)

/-- The comparison of the elements of two entries, as the sifts make it. -/
def precedes (element : ℕ → α) (e₁ e₂ : ℕ) : Bool :=
  decide (compare (element e₁) (element e₂) < 0)

theorem Layout.heapifyUp (hl : Layout h n node entry) {i fuel : ℕ} (hi : 1 ≤ i ∧ i ≤ n)
    (hfuel : i ≤ fuel) :
    ∃ h', heapifyUp compare fuel h (node i) = some h' ∧
      Layout h' n node (siftUp (precedes compare h.elements) entry i) ∧ Same h h' := by
  generalize helements : h.elements = element
  induction entry, i using siftUp.induct (precedes compare element) generalizing h fuel with
  | case1 entry i hroot =>
      obtain ⟨fuel, rfl⟩ := Nat.exists_eq_add_of_le' (show 1 ≤ fuel by omega)
      refine ⟨h, ?_, ?_, Same.refl h⟩
      · rw [Heap.heapifyUp, hl.parent i hi, show i / 2 = 0 by omega, position_zero]
      · rw [siftUp, if_pos hroot]
        exact hl
  | case2 entry i hroot hstop =>
      obtain ⟨fuel, rfl⟩ := Nat.exists_eq_add_of_le' (show 1 ≤ fuel by omega)
      have hp : 1 ≤ i / 2 ∧ i / 2 ≤ n := by omega
      refine ⟨h, ?_, ?_, Same.refl h⟩
      · rw [Heap.heapifyUp, hl.parent i hi, position_of_mem _ hp]
        dsimp only
        rw [hl.element hp, hl.element hi, helements]
        exact if_pos (of_decide_eq_true hstop)
      · rw [siftUp, if_neg hroot, if_pos hstop]
        exact hl
  | case3 entry i hroot hswap ih =>
      obtain ⟨fuel, rfl⟩ := Nat.exists_eq_add_of_le' (show 1 ≤ fuel by omega)
      have hp : 1 ≤ i / 2 ∧ i / 2 ≤ n := by omega
      obtain ⟨h₁, hrun, hl₁, hsame⟩ := hl.swapEntries hi hp
      obtain ⟨h', hrest, hl', hsame'⟩ :=
        ih hl₁ hp (show i / 2 ≤ fuel by omega) (hsame.elements.trans helements)
      refine ⟨h', ?_, ?_, hsame.trans hsame'⟩
      · rw [Heap.heapifyUp, hl.parent i hi, position_of_mem _ hp]
        dsimp only
        rw [hl.element hp, hl.element hi, helements]
        refine (if_neg fun hlt => hswap (decide_eq_true hlt)).trans ?_
        rw [hrun]
        exact hrest
      · rw [siftUp, if_neg hroot, if_neg hswap]
        exact hl'

theorem Layout.smaller (hl : Layout h n node entry) {c j : ℕ} (hc : 1 ≤ c ∧ c ≤ n) (hj : 1 ≤ j) :
    h.smaller compare (node c) (position n node j) =
      some (node (if j ≤ n ∧ precedes compare h.elements (entry j) (entry c) = true
        then j else c)) := by
  by_cases hjn : j ≤ n
  · rw [position_of_mem _ ⟨hj, hjn⟩, Heap.smaller, hl.element hc, hl.element ⟨hj, hjn⟩]
    refine congrArg some ?_
    by_cases hlt : compare (h.elements (entry j)) (h.elements (entry c)) < 0
    · rw [if_pos hlt, if_pos ⟨hjn, decide_eq_true hlt⟩]
    · rw [if_neg hlt, if_neg fun hall => hlt (of_decide_eq_true hall.2)]
  · rw [position_of_lt _ (Nat.lt_of_not_le hjn), Heap.smaller, if_neg fun hall => hjn hall.1]

theorem Layout.chosen (hl : Layout h n node entry) {i : ℕ} (hi : 1 ≤ i ∧ i ≤ n) :
    ((h.smaller compare (node i) (h.nodes (node i)).left).bind fun choosen =>
        h.smaller compare choosen (h.nodes (node i)).right) =
      some (node (chosen (precedes compare h.elements) n entry i)) := by
  rw [hl.left i hi, hl.right i hi, hl.smaller compare hi (by omega), Option.bind_some,
    hl.smaller compare ?_ (by omega)]
  · rfl
  · split_ifs with hleft
    · omega
    · exact hi

theorem heapifyDown_succ {compare : α → α → ℤ} {h : Heap α} {current c : ℕ} (fuel : ℕ)
    (hc : ((h.smaller compare current (h.nodes current).left).bind fun choosen =>
      h.smaller compare choosen (h.nodes current).right) = some c) :
    heapifyDown compare (fuel + 1) h current =
      if c = current then some h
      else (h.swapEntries current c).bind fun h => heapifyDown compare fuel h c := by
  obtain ⟨left, hleft, hright⟩ := Option.bind_eq_some_iff.mp hc
  rw [heapifyDown, hleft]
  refine (Option.bind_some _ _).trans ?_
  rw [hright]
  rfl

theorem Layout.heapifyDown (hl : Layout h n node entry) {i fuel : ℕ} (hi : 1 ≤ i ∧ i ≤ n)
    (hfuel : n - i + 1 ≤ fuel) :
    ∃ h', heapifyDown compare fuel h (node i) = some h' ∧
      Layout h' n node (siftDown (precedes compare h.elements) n entry i) ∧ Same h h' := by
  generalize helements : h.elements = element
  induction entry, i using siftDown.induct (precedes compare element) n generalizing h fuel with
  | case1 entry i hstay =>
      obtain ⟨fuel, rfl⟩ := Nat.exists_eq_add_of_le' (show 1 ≤ fuel by omega)
      have hchosen := hl.chosen compare hi
      rw [helements, hstay] at hchosen
      refine ⟨h, ?_, ?_, Same.refl h⟩
      · rw [heapifyDown_succ fuel hchosen, if_pos rfl]
      · rw [siftDown, if_pos hstay]
        exact hl
  | case2 entry i hmove ih =>
      obtain ⟨fuel, rfl⟩ := Nat.exists_eq_add_of_le' (show 1 ≤ fuel by omega)
      have hchosen := hl.chosen compare hi
      rw [helements] at hchosen
      have hbounds := chosen_bounds (precedes compare element) hmove
      generalize hc : BinaryHeap.chosen (precedes compare element) n entry i = c at *
      have hcn : 1 ≤ c ∧ c ≤ n := by omega
      obtain ⟨h₁, hrun, hl₁, hsame⟩ := hl.swapEntries hi hcn
      obtain ⟨h', hrest, hl', hsame'⟩ :=
        ih hl₁ hcn (show n - c + 1 ≤ fuel by omega) (hsame.elements.trans helements)
      refine ⟨h', ?_, ?_, hsame.trans hsame'⟩
      · rw [heapifyDown_succ fuel hchosen, if_neg fun he => hmove (hl.distinct c i hcn hi he),
          hrun]
        exact hrest
      · rw [siftDown, hc, if_neg hmove]
        exact hl'

end Sifts

end Heap

end Utils

end PomeloUdp
