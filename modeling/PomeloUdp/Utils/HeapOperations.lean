import PomeloUdp.Utils.HeapLayout

/-!
# The operations on a layout

A push appends a position with a new node and a new entry and sifts up from it. A
removal puts the last entry in the place of the one that goes, drops the last
position and sifts down. The clearing of the heap takes the nodes from a queue that
runs through their `next` fields: the queue always holds the uppermost of the nodes
that are left, so that every node and every entry is released once.
-/

namespace PomeloUdp

namespace Utils

open BinaryHeap

variable {α : Type}

namespace Heap

variable (compare : α → α → ℤ) {h : Heap α} {n : ℕ} {node entry : ℕ → ℕ}

theorem Layout.withSize (hl : Layout h n node entry) (size : ℕ) :
    Layout { h with size := size } n node entry :=
  ⟨⟨hl.root, hl.distinct, hl.parent, hl.left, hl.right, hl.next, hl.signed, hl.nodeUsed⟩,
    hl.holds, hl.back, hl.entryUsed, hl.onto⟩

theorem Layout.empty (hroot : h.root = none) (hentries : ∀ e, h.entryUsed e = false) :
    Layout h 0 node entry := by
  have hempty : ∀ i, ¬(1 ≤ i ∧ i ≤ 0) := by
    intro i
    omega
  refine ⟨⟨hroot, fun i _ hi => absurd hi (hempty i), fun i hi => absurd hi (hempty i),
    fun i hi => absurd hi (hempty i), fun i hi => absurd hi (hempty i),
    fun i hi => absurd hi (hempty i), fun i hi => absurd hi (hempty i),
    fun i hi => absurd hi (hempty i)⟩,
    fun i hi => absurd hi (hempty i), fun i hi => absurd hi (hempty i),
    fun i hi => absurd hi (hempty i), fun e he => ?_⟩
  rw [hentries e] at he
  cases he

section Push

variable {new e : ℕ} {x : α}

theorem Links.node_ne (hl : Links h n node) (hnew : h.nodeUsed new = false) {i : ℕ}
    (hi : 1 ≤ i ∧ i ≤ n) : node i ≠ new := by
  rintro rfl
  rw [hl.nodeUsed i hi] at hnew
  cases hnew

theorem Layout.entry_ne (hl : Layout h n node entry) (he : h.entryUsed e = false) {i : ℕ}
    (hi : 1 ≤ i ∧ i ≤ n) : entry i ≠ e := by
  rintro rfl
  rw [hl.entryUsed i hi] at he
  cases he

theorem acquire_nodes_of_ne (h : Heap α) {k : ℕ} (hk : k ≠ new) :
    (h.acquire new e x).nodes k = h.nodes k :=
  Function.update_of_ne hk _ _

theorem acquire_nodes_self (h : Heap α) :
    (h.acquire new e x).nodes new = ⟨some e, none, none, none, none, true⟩ :=
  Function.update_self _ _ _

theorem acquire_entries_self (h : Heap α) : (h.acquire new e x).entries e = ⟨new, x⟩ :=
  Function.update_self _ _ _

theorem acquire_entries_of_ne (h : Heap α) {k : ℕ} (hk : k ≠ e) :
    (h.acquire new e x).entries k = h.entries k :=
  Function.update_of_ne hk _ _

theorem acquire_elements (h : Heap α) :
    (h.acquire new e x).elements = Function.update h.elements e x := by
  funext k
  simp only [elements, acquire, Function.update_apply]
  split_ifs <;> rfl

theorem Links.acquire (hl : Links h n node) (hnew : h.nodeUsed new = false) :
    Links (h.acquire new e x) n node where
  root := hl.root
  distinct := hl.distinct
  parent i hi := by
    rw [acquire_nodes_of_ne h (hl.node_ne hnew hi)]
    exact hl.parent i hi
  left i hi := by
    rw [acquire_nodes_of_ne h (hl.node_ne hnew hi)]
    exact hl.left i hi
  right i hi := by
    rw [acquire_nodes_of_ne h (hl.node_ne hnew hi)]
    exact hl.right i hi
  next i hi := by
    rw [acquire_nodes_of_ne h (hl.node_ne hnew hi)]
    exact hl.next i hi
  signed i hi := by
    rw [acquire_nodes_of_ne h (hl.node_ne hnew hi)]
    exact hl.signed i hi
  nodeUsed i hi :=
    (Function.update_of_ne (hl.node_ne hnew hi) _ _).trans (hl.nodeUsed i hi)

theorem attach_nodes (h : Heap α) {parent new : ℕ} (hne : parent ≠ new) (k : ℕ) :
    (h.attach parent new).nodes k =
      if k = new then { h.nodes k with parent := some parent }
      else if k = parent then
        (if (h.nodes k).left = none then { h.nodes k with left := some new }
          else { h.nodes k with right := some new })
      else h.nodes k := by
  simp only [attach, modifyNode_nodes]
  by_cases hk : k = new
  · rw [if_pos hk, if_neg (by rw [hk]; exact hne.symm), if_pos hk]
  · rw [if_neg hk, if_neg hk]

theorem Links.attach_nodes (hl : Links h n node) (hnew : h.nodeUsed new = false) {i : ℕ}
    (hi : 1 ≤ i ∧ i ≤ n) :
    ((h.acquire new e x).attach (node ((n + 1) / 2)) new).nodes (node i) =
      { h.nodes (node i) with
        left := if 2 * i = n + 1 then some new else (h.nodes (node i)).left
        right := if 2 * i + 1 = n + 1 then some new else (h.nodes (node i)).right } := by
  have hp : 1 ≤ (n + 1) / 2 ∧ (n + 1) / 2 ≤ n := by omega
  rw [Heap.attach_nodes _ (hl.node_ne hnew hp), if_neg (hl.node_ne hnew hi),
    acquire_nodes_of_ne h (hl.node_ne hnew hi)]
  by_cases hip : i = (n + 1) / 2
  · rw [if_pos (by rw [hip]), hl.left i hi]
    by_cases heven : 2 * i = n + 1
    · rw [if_pos (position_of_lt _ (by omega)), if_pos heven, if_neg (by omega)]
    · rw [position_of_mem _ (by omega), if_neg (by simp), if_neg heven, if_pos (by omega)]
      exact congrArg (fun l => { h.nodes (node i) with left := l, right := some new })
        ((hl.left i hi).trans (position_of_mem _ (by omega)))
  · rw [if_neg fun he => hip (hl.distinct _ _ hi hp he), if_neg (by omega), if_neg (by omega)]

theorem Links.attach (hl : Links h n node) (hn : 1 ≤ n) (hnew : h.nodeUsed new = false) :
    Links ((h.acquire new e x).attach (node ((n + 1) / 2)) new) (n + 1)
      (Function.update node (n + 1) new) := by
  have hp : 1 ≤ (n + 1) / 2 ∧ (n + 1) / 2 ≤ n := by omega
  have hlast : ((h.acquire new e x).attach (node ((n + 1) / 2)) new).nodes new =
      ⟨some e, some (node ((n + 1) / 2)), none, none, none, true⟩ := by
    rw [Heap.attach_nodes _ (hl.node_ne hnew hp), if_pos rfl, acquire_nodes_self]
  have hcases : ∀ i, 1 ≤ i ∧ i ≤ n + 1 → i = n + 1 ∨ i ≠ n + 1 ∧ 1 ≤ i ∧ i ≤ n := by
    intro i hi
    omega
  constructor
  · rw [position_update, if_neg (by omega)]
    exact hl.root
  · intro i j hi hj hij
    obtain rfl | ⟨hin, hi⟩ := hcases i hi
    · obtain rfl | ⟨hjn, hj⟩ := hcases j hj
      · rfl
      · rw [Function.update_self, Function.update_of_ne hjn] at hij
        exact absurd hij.symm (hl.node_ne hnew hj)
    · obtain rfl | ⟨hjn, hj⟩ := hcases j hj
      · rw [Function.update_self, Function.update_of_ne hin] at hij
        exact absurd hij (hl.node_ne hnew hi)
      · rw [Function.update_of_ne hin, Function.update_of_ne hjn] at hij
        exact hl.distinct i j hi hj hij
  · intro i hi
    rw [position_update, if_neg (by omega)]
    obtain rfl | ⟨hin, hi⟩ := hcases i hi
    · rw [Function.update_self, hlast, position_of_mem _ hp]
    · rw [Function.update_of_ne hin, hl.attach_nodes hnew hi]
      exact hl.parent i hi
  · intro i hi
    rw [position_update]
    obtain rfl | ⟨hin, hi⟩ := hcases i hi
    · rw [Function.update_self, hlast, if_neg (by omega), position_of_lt _ (by omega)]
    · rw [Function.update_of_ne hin, hl.attach_nodes hnew hi]
      exact if_congr Iff.rfl rfl (hl.left i hi)
  · intro i hi
    rw [position_update]
    obtain rfl | ⟨hin, hi⟩ := hcases i hi
    · rw [Function.update_self, hlast, if_neg (by omega), position_of_lt _ (by omega)]
    · rw [Function.update_of_ne hin, hl.attach_nodes hnew hi]
      exact if_congr Iff.rfl rfl (hl.right i hi)
  · intro i hi
    obtain rfl | ⟨hin, hi⟩ := hcases i hi
    · rw [Function.update_self, hlast]
    · rw [Function.update_of_ne hin, hl.attach_nodes hnew hi]
      exact hl.next i hi
  · intro i hi
    obtain rfl | ⟨hin, hi⟩ := hcases i hi
    · rw [Function.update_self, hlast]
    · rw [Function.update_of_ne hin, hl.attach_nodes hnew hi]
      exact hl.signed i hi
  · intro i hi
    obtain rfl | ⟨hin, hi⟩ := hcases i hi
    · rw [Function.update_self]
      exact Function.update_self _ _ _
    · rw [Function.update_of_ne hin]
      exact (Function.update_of_ne (hl.node_ne hnew hi) _ _).trans (hl.nodeUsed i hi)

theorem Layout.attach (hl : Layout h n node entry) (hn : 1 ≤ n) (hnew : h.nodeUsed new = false)
    (he : h.entryUsed e = false) :
    Layout ((h.acquire new e x).attach (node ((n + 1) / 2)) new) (n + 1)
      (Function.update node (n + 1) new) (Function.update entry (n + 1) e) := by
  have hp : 1 ≤ (n + 1) / 2 ∧ (n + 1) / 2 ≤ n := by omega
  have hcases : ∀ i, 1 ≤ i ∧ i ≤ n + 1 → i = n + 1 ∨ i ≠ n + 1 ∧ 1 ≤ i ∧ i ≤ n := by
    intro i hi
    omega
  refine ⟨hl.toLinks.attach hn hnew, fun i hi => ?_, fun i hi => ?_, fun i hi => ?_,
    fun e' he' => ?_⟩
  · obtain rfl | ⟨hin, hi⟩ := hcases i hi
    · rw [Function.update_self, Function.update_self,
        Heap.attach_nodes _ (hl.node_ne hnew hp), if_pos rfl, acquire_nodes_self]
    · rw [Function.update_of_ne hin, Function.update_of_ne hin, hl.attach_nodes hnew hi]
      exact hl.holds i hi
  · obtain rfl | ⟨hin, hi⟩ := hcases i hi
    · rw [Function.update_self, Function.update_self]
      exact congrArg HeapEntry.node (acquire_entries_self h)
    · rw [Function.update_of_ne hin, Function.update_of_ne hin]
      exact (congrArg HeapEntry.node (acquire_entries_of_ne h (hl.entry_ne he hi))).trans
        (hl.back i hi)
  · obtain rfl | ⟨hin, hi⟩ := hcases i hi
    · rw [Function.update_self]
      exact Function.update_self _ _ _
    · rw [Function.update_of_ne hin]
      exact (Function.update_of_ne (hl.entry_ne he hi) _ _).trans (hl.entryUsed i hi)
  · by_cases hnewEntry : e' = e
    · exact ⟨n + 1, by omega, by rw [Function.update_self, hnewEntry]⟩
    · obtain ⟨i, hi, hie⟩ := hl.onto e' ((Function.update_of_ne hnewEntry _ _).symm.trans he')
      exact ⟨i, by omega, by rw [Function.update_of_ne (by omega), hie]⟩

theorem Layout.single (hl : Layout h 0 node entry) :
    Layout { h.acquire new e x with root := some new, size := h.size + 1 } 1
      (Function.update node 1 new) (Function.update entry 1 e) := by
  have hone : ∀ i, 1 ≤ i ∧ i ≤ 1 → i = 1 := by
    intro i hi
    omega
  have hnode : (h.acquire new e x).nodes new = ⟨some e, none, none, none, none, true⟩ :=
    acquire_nodes_self h
  refine ⟨⟨?_, fun i j hi hj _ => ?_, fun i hi => ?_, fun i hi => ?_, fun i hi => ?_,
    fun i hi => ?_, fun i hi => ?_, fun i hi => ?_⟩, fun i hi => ?_, fun i hi => ?_,
    fun i hi => ?_, fun e' he' => ?_⟩
  · rw [position_of_mem _ (by decide), Function.update_self]
  · rw [hone i hi, hone j hj]
  · rw [hone i hi, Function.update_self]
    exact congrArg HeapNode.parent hnode
  · rw [hone i hi, Function.update_self, position_of_lt _ (by decide)]
    exact congrArg HeapNode.left hnode
  · rw [hone i hi, Function.update_self, position_of_lt _ (by decide)]
    exact congrArg HeapNode.right hnode
  · rw [hone i hi, Function.update_self]
    exact congrArg HeapNode.next hnode
  · rw [hone i hi, Function.update_self]
    exact congrArg HeapNode.signed hnode
  · rw [hone i hi, Function.update_self]
    exact Function.update_self _ _ _
  · rw [hone i hi, Function.update_self, Function.update_self]
    exact congrArg HeapNode.entry hnode
  · rw [hone i hi, Function.update_self, Function.update_self]
    exact congrArg HeapEntry.node (acquire_entries_self h)
  · rw [hone i hi, Function.update_self]
    exact Function.update_self _ _ _
  · by_cases hnewEntry : e' = e
    · exact ⟨1, by decide, by rw [Function.update_self, hnewEntry]⟩
    · obtain ⟨i, hi, -⟩ := hl.onto e' ((Function.update_of_ne hnewEntry _ _).symm.trans he')
      omega

/-- A push succeeds: the new entry is sifted up from the new last position. -/
theorem Layout.push (hl : Layout h n node entry) (hsize : h.size = n)
    (hnew : h.nodeUsed new = false) (he : h.entryUsed e = false) :
    ∃ h', push compare h new e x = some h' ∧
      Layout h' (n + 1) (Function.update node (n + 1) new)
        (siftUp (precedes compare (Function.update h.elements e x))
          (Function.update entry (n + 1) e) (n + 1)) ∧
      h'.size = n + 1 ∧ h'.elements = Function.update h.elements e x := by
  by_cases hn : n = 0
  · subst hn
    have hroot : (h.acquire new e x).root = none := hl.root
    refine ⟨{ h.acquire new e x with root := some new, size := h.size + 1 }, ?_, ?_,
      congrArg (· + 1) hsize, acquire_elements h⟩
    · rw [Heap.push, hroot]
      rfl
    · rw [siftUp, if_pos (by decide)]
      exact hl.single
  · have hroot : (h.acquire new e x).root = some (node 1) :=
      hl.root.trans (position_of_mem _ (by omega))
    have hfind : (h.acquire new e x).findInsertPosition = some (node ((n + 1) / 2)) :=
      (hl.toLinks.acquire hnew).findInsertPosition (by omega) hsize
    have hattach : Layout ((h.acquire new e x).attach (node ((n + 1) / 2)) new) (n + 1)
        (Function.update node (n + 1) new) (Function.update entry (n + 1) e) :=
      hl.attach (by omega) hnew he
    obtain ⟨h₁, hrun, hl₁, hsame⟩ :=
      hattach.heapifyUp compare (show 1 ≤ n + 1 ∧ n + 1 ≤ n + 1 by omega) (le_refl (n + 1))
    have helements : ((h.acquire new e x).attach (node ((n + 1) / 2)) new).elements =
        Function.update h.elements e x :=
      acquire_elements h
    rw [Function.update_self] at hrun
    rw [helements] at hl₁
    refine ⟨{ h₁ with size := h₁.size + 1 }, ?_, ?_, ?_, hsame.elements.trans helements⟩
    · rw [Heap.push, hroot, hfind]
      have hfuel : (h.acquire new e x).size = n := hsize
      rw [hfuel]
      refine (Option.bind_some _ _).trans ?_
      rw [hrun]
      rfl
    · exact hl₁.withSize _
    · exact congrArg (· + 1) (hsame.size.trans hsize)

end Push

section Removal

@[simp] theorem discard_nodes (h : Heap α) (last e k : ℕ) :
    (h.discard last e).nodes k =
      if k = last then { h.nodes k with entry := none } else h.nodes k :=
  modifyNode_nodes (h.releaseEntry e) last ({ · with entry := none }) k

/-- The heap without its last node. -/
def dropLast (h : Heap α) (parent last e : ℕ) : Heap α :=
  { ((h.detach parent last).modifyNode last ({ · with signed := false })).discard last e with
    size := h.size - 1 }

theorem dropLast_nodes (h : Heap α) {parent last : ℕ} (e : ℕ) {k : ℕ} (hk : k ≠ last) :
    (h.dropLast parent last e).nodes k =
      if k = parent then
        (if (h.nodes k).left = some last then { h.nodes k with left := none }
          else { h.nodes k with right := none })
      else h.nodes k := by
  simp only [dropLast, discard_nodes, modifyNode_nodes, detach, if_neg hk]

theorem Layout.dropLast_nodes (hl : Layout h (n + 1) node entry) {e i : ℕ} (hi : 1 ≤ i ∧ i ≤ n) :
    (h.dropLast (node ((n + 1) / 2)) (node (n + 1)) e).nodes (node i) =
      { h.nodes (node i) with
        left := position n node (2 * i)
        right := position n node (2 * i + 1) } := by
  have hlast : 1 ≤ n + 1 ∧ n + 1 ≤ n + 1 := by omega
  have hi' : 1 ≤ i ∧ i ≤ n + 1 := by omega
  have hp : 1 ≤ (n + 1) / 2 ∧ (n + 1) / 2 ≤ n + 1 := by omega
  have hleft := hl.left i hi'
  have hright := hl.right i hi'
  rw [Heap.dropLast_nodes h e fun he => absurd (hl.distinct _ _ hi' hlast he) (by omega)]
  generalize h.nodes (node i) = v at hleft hright ⊢
  obtain ⟨_, _, left, right, _, _⟩ := v
  dsimp only at hleft hright
  by_cases hip : i = (n + 1) / 2
  · rw [if_pos (by rw [hip])]
    by_cases heven : 2 * i = n + 1
    · rw [heven, position_of_mem _ hlast] at hleft
      rw [hleft, if_pos rfl, position_of_lt _ (by omega), position_of_lt _ (by omega), hright,
        position_of_lt _ (by omega)]
    · rw [position_of_mem _ (by omega)] at hleft
      have hne : left ≠ some (node (n + 1)) := by
        rw [hleft]
        intro he
        exact heven (hl.distinct _ _ (by omega) hlast (Option.some_inj.mp he))
      rw [if_neg hne, hleft, position_of_mem _ (by omega), position_of_lt _ (by omega)]
  · rw [if_neg fun he => hip (hl.distinct _ _ hi' hp he), hleft, hright,
      position_succ_of_ne _ (by omega), position_succ_of_ne _ (by omega)]

theorem Layout.dropLast (hl : Layout h (n + 1) node entry) (hn : 1 ≤ n) :
    Layout (h.dropLast (node ((n + 1) / 2)) (node (n + 1)) (entry (n + 1))) n node entry := by
  have hlast : 1 ≤ n + 1 ∧ n + 1 ≤ n + 1 := by omega
  have hmem : ∀ i, 1 ≤ i ∧ i ≤ n → 1 ≤ i ∧ i ≤ n + 1 := by
    intro i hi
    omega
  have hnode : ∀ i, 1 ≤ i ∧ i ≤ n → node i ≠ node (n + 1) := by
    intro i hi he
    exact absurd (hl.distinct _ _ (hmem i hi) hlast he) (by omega)
  have hentry : ∀ i, 1 ≤ i ∧ i ≤ n → entry i ≠ entry (n + 1) := by
    intro i hi he
    exact absurd ((hl.entry_inj (hmem i hi) hlast).mp he) (by omega)
  refine ⟨⟨?_, fun i j hi hj => hl.distinct i j (hmem i hi) (hmem j hj), fun i hi => ?_,
    fun i hi => ?_, fun i hi => ?_, fun i hi => ?_, fun i hi => ?_, fun i hi => ?_⟩,
    fun i hi => ?_, fun i hi => hl.back i (hmem i hi), fun i hi => ?_, fun e he => ?_⟩
  · rw [← position_succ_of_ne node (show 1 ≠ n + 1 by omega)]
    exact hl.root
  · rw [hl.dropLast_nodes hi, ← position_succ_of_ne node (show i / 2 ≠ n + 1 by omega)]
    exact hl.parent i (hmem i hi)
  · rw [hl.dropLast_nodes hi]
  · rw [hl.dropLast_nodes hi]
  · rw [hl.dropLast_nodes hi]
    exact hl.next i (hmem i hi)
  · rw [hl.dropLast_nodes hi]
    exact hl.signed i (hmem i hi)
  · exact (Function.update_of_ne (hnode i hi) _ _).trans (hl.nodeUsed i (hmem i hi))
  · rw [hl.dropLast_nodes hi]
    exact hl.holds i (hmem i hi)
  · exact (Function.update_of_ne (hentry i hi) _ _).trans (hl.entryUsed i (hmem i hi))
  · have hne : e ≠ entry (n + 1) := by
      rintro rfl
      have hused : (h.dropLast (node ((n + 1) / 2)) (node (n + 1)) (entry (n + 1))).entryUsed
          (entry (n + 1)) = false :=
        Function.update_self _ _ _
      rw [hused] at he
      cases he
    obtain ⟨i, hi, hie⟩ := hl.onto e ((Function.update_of_ne hne _ _).symm.trans he)
    refine ⟨i, ⟨hi.1, Nat.le_of_lt_succ (lt_of_le_of_ne hi.2 fun hin => hne ?_)⟩, hie⟩
    rw [← hie, hin]

@[simp] theorem detach_entryOf (h : Heap α) (parent last k : ℕ) :
    ((h.detach parent last).modifyNode last ({ · with signed := false })).entryOf k =
      h.entryOf k := by
  have hentry : (((h.detach parent last).modifyNode last
      ({ · with signed := false })).nodes k).entry = (h.nodes k).entry := by
    simp only [modifyNode_nodes, detach]
    split_ifs <;> rfl
  rw [Heap.entryOf, hentry]
  rfl

theorem Layout.heapifyDown_dropped (hl : Layout h (n + 1) node entry) (hn : 1 ≤ n) (fuel e : ℕ) :
    Heap.heapifyDown compare (fuel + 1)
        (h.dropLast (node ((n + 1) / 2)) (node (n + 1)) e) (node (n + 1)) =
      some (h.dropLast (node ((n + 1) / 2)) (node (n + 1)) e) := by
  have hlast : 1 ≤ n + 1 ∧ n + 1 ≤ n + 1 := by omega
  have hne : node (n + 1) ≠ node ((n + 1) / 2) := by
    intro he
    exact absurd (hl.distinct _ _ hlast (by omega) he) (by omega)
  have hnode : (h.dropLast (node ((n + 1) / 2)) (node (n + 1)) e).nodes (node (n + 1)) =
      { h.nodes (node (n + 1)) with entry := none, signed := false } := by
    simp only [Heap.dropLast, discard_nodes, modifyNode_nodes, detach, if_neg hne, if_true]
  have hchoice : (((h.dropLast (node ((n + 1) / 2)) (node (n + 1)) e).smaller compare
      (node (n + 1)) ((h.dropLast (node ((n + 1) / 2)) (node (n + 1)) e).nodes
        (node (n + 1))).left).bind fun choosen =>
      (h.dropLast (node ((n + 1) / 2)) (node (n + 1)) e).smaller compare choosen
        ((h.dropLast (node ((n + 1) / 2)) (node (n + 1)) e).nodes (node (n + 1))).right) =
      some (node (n + 1)) := by
    rw [hnode]
    dsimp only
    rw [hl.left _ hlast, hl.right _ hlast, position_of_lt _ (by omega),
      position_of_lt _ (by omega)]
    rfl
  rw [heapifyDown_succ fuel hchoice, if_pos rfl]

/-- A removal succeeds: the last entry takes the place of the one that goes and is
sifted down from there. -/
theorem Layout.removeNode (hl : Layout h (n + 1) node entry) (hsize : h.size = n + 1) {p : ℕ}
    (hp : 1 ≤ p ∧ p ≤ n + 1) :
    ∃ h', removeNode compare h (node p) = some h' ∧
      Layout h' n node
        (siftDown (precedes compare h.elements) n (exchange entry p (n + 1)) p) ∧
      h'.size = n ∧ h'.elements = h.elements := by
  have hlast : 1 ≤ n + 1 ∧ n + 1 ≤ n + 1 := by omega
  have hsigned : ¬(h.nodes (node p)).signed = false := by
    rw [hl.signed p hp]
    decide
  by_cases hn : n = 0
  · subst hn
    obtain rfl : p = 1 := by omega
    have hroot : h.root = some (node 1) := hl.root.trans (position_of_mem _ (by decide))
    refine ⟨{ h.discard (node 1) (entry 1) with root := none, size := 0 }, ?_, ?_, rfl, rfl⟩
    · rw [Heap.removeNode, if_neg hsigned, if_pos hsize, if_pos hroot, hl.entryOf hp]
      rfl
    · refine Layout.empty rfl fun e => Bool.eq_false_iff.mpr fun he => ?_
      have hne : e ≠ entry 1 := by
        rintro rfl
        have hused : (h.discard (node 1) (entry 1)).entryUsed (entry 1) = false :=
          Function.update_self _ _ _
        exact absurd (hused.symm.trans he) (by decide)
      obtain ⟨i, hi, hie⟩ := hl.onto e ((Function.update_of_ne hne _ _).symm.trans he)
      obtain rfl : i = 1 := by omega
      exact absurd hie.symm hne
  · have hfind : h.findLastNode = some (node (n + 1)) := by
      rw [findLastNode, hsize]
      exact hl.toLinks.findNode hlast
    obtain ⟨h₁, hswap, hl₁, hsame⟩ := hl.swapEntries hp hlast
    have hparent : (h₁.nodes (node (n + 1))).parent = some (node ((n + 1) / 2)) :=
      (hl₁.parent _ hlast).trans (position_of_mem _ (by omega))
    have hdrop := hl₁.dropLast (Nat.one_le_iff_ne_zero.mpr hn)
    generalize hdropped : h₁.dropLast (node ((n + 1) / 2)) (node (n + 1))
      (exchange entry p (n + 1) (n + 1)) = h₂ at hdrop
    have hsize₂ : h₂.size = n := by
      rw [← hdropped, Heap.dropLast]
      exact congrArg (· - 1) (hsame.size.trans hsize)
    have helements : h₂.elements = h.elements := by
      rw [← hdropped]
      exact hsame.elements
    have hrun : Heap.removeNode compare h (node p) =
        Heap.heapifyDown compare (h₂.size + 1) h₂ (node p) := by
      rw [Heap.removeNode, if_neg hsigned, if_neg (by omega), hfind]
      refine (Option.bind_some _ _).trans ?_
      rw [hswap]
      refine (Option.bind_some _ _).trans ?_
      rw [hparent]
      refine (Option.bind_some _ _).trans ?_
      have hentry := (detach_entryOf h₁ (node ((n + 1) / 2)) (node (n + 1)) (node (n + 1))).trans
        (hl₁.entryOf hlast)
      refine (congrArg (Option.bind · _) hentry).trans ?_
      rw [← hdropped]
      rfl
    rw [hrun, hsize₂, ← helements]
    by_cases hpn : p ≤ n
    · obtain ⟨h', hdown, hl', hsame'⟩ :=
        hdrop.heapifyDown compare ⟨hp.1, hpn⟩ (show n - p + 1 ≤ n + 1 by omega)
      exact ⟨h', hdown, hl', hsame'.size.trans hsize₂, hsame'.elements⟩
    · obtain rfl : p = n + 1 := by omega
      refine ⟨h₂, ?_, ?_, hsize₂, rfl⟩
      · rw [← hdropped]
        exact hl₁.heapifyDown_dropped compare (Nat.one_le_iff_ne_zero.mpr hn) n _
      · have hstay : BinaryHeap.chosen (precedes compare h₂.elements) n
            (exchange entry (n + 1) (n + 1)) (n + 1) = n + 1 := by
          by_contra hmove
          have hbounds := chosen_bounds _ hmove
          omega
        rw [siftDown, if_pos hstay]
        exact hdrop

end Removal

section Clear

variable {S : Finset ℕ} {queue : List ℕ} {q c : ℕ}

/-- A position goes in front of a queue of positions if the tree has it. -/
def enqueuePosition (n c : ℕ) (queue : List ℕ) : List ℕ := if c ≤ n then c :: queue else queue

theorem mem_enqueuePosition {x : ℕ} :
    x ∈ enqueuePosition n c queue ↔ (c ≤ n ∧ x = c) ∨ x ∈ queue := by
  rw [enqueuePosition]
  split_ifs with hc
  · rw [List.mem_cons, and_iff_right hc]
  · rw [or_iff_right fun h => hc h.1]

theorem nodup_enqueuePosition (h : queue.Nodup) (hc : c ∉ queue) :
    (enqueuePosition n c queue).Nodup := by
  rw [enqueuePosition]
  split_ifs
  · exact List.nodup_cons.mpr ⟨hc, h⟩
  · exact h

/-- The positions that are left are the subtrees below the queue. -/
structure Frontier (n : ℕ) (S : Finset ℕ) (queue : List ℕ) : Prop where
  within : ∀ i ∈ S, 1 ≤ i ∧ i ≤ n
  nodup : queue.Nodup
  subset : ∀ i ∈ queue, i ∈ S
  closed : ∀ i ∈ S, ∀ j, j ≤ n → j / 2 = i → j ∈ S
  reached : ∀ i ∈ S, i ∈ queue ∨ i / 2 ∈ S
  uppermost : ∀ i ∈ queue, i / 2 ∉ S

theorem Frontier.init (hn : 1 ≤ n) : Frontier n (Finset.Icc 1 n) [1] where
  within i hi := Finset.mem_Icc.mp hi
  nodup := List.nodup_singleton 1
  subset i hi := by
    rw [List.mem_singleton.mp hi, Finset.mem_Icc]
    omega
  closed i hi j hj hji := by
    rw [Finset.mem_Icc] at hi ⊢
    omega
  reached i hi := by
    rw [Finset.mem_Icc] at hi
    rw [List.mem_singleton, Finset.mem_Icc]
    omega
  uppermost i hi := by
    rw [List.mem_singleton.mp hi, Finset.mem_Icc]
    omega

theorem Frontier.step (hf : Frontier n S (q :: queue)) :
    Frontier n (S.erase q)
      (enqueuePosition n (2 * q + 1) (enqueuePosition n (2 * q) queue)) := by
  have hq := hf.subset q List.mem_cons_self
  have hqn := hf.within q hq
  obtain ⟨hqueue, hnodup⟩ := List.nodup_cons.mp hf.nodup
  have hchild : ∀ c, c / 2 = q → c ∉ queue := by
    intro c hc hmem
    exact hf.uppermost c (List.mem_cons_of_mem q hmem) (hc ▸ hq)
  have hmem : ∀ i, i ∈ enqueuePosition n (2 * q + 1) (enqueuePosition n (2 * q) queue) ↔
      (i ≤ n ∧ i / 2 = q) ∨ i ∈ queue := by
    intro i
    rw [mem_enqueuePosition, mem_enqueuePosition, ← or_assoc]
    refine or_congr_left ⟨?_, ?_⟩ <;> omega
  refine ⟨fun i hi => hf.within i (Finset.mem_of_mem_erase hi), ?_, fun i hi => ?_,
    fun i hi j hj hji => ?_, fun i hi => ?_, fun i hi => ?_⟩
  · refine nodup_enqueuePosition (nodup_enqueuePosition hnodup (hchild _ (by omega))) ?_
    rw [mem_enqueuePosition]
    rintro (h | h)
    · omega
    · exact hchild _ (by omega) h
  · obtain ⟨hin, hiq⟩ | hrest := (hmem i).mp hi
    · exact Finset.mem_erase.mpr ⟨by omega, hf.closed q hq i hin hiq⟩
    · refine Finset.mem_erase.mpr ⟨?_, hf.subset i (List.mem_cons_of_mem q hrest)⟩
      intro hiq
      exact hqueue (hiq ▸ hrest)
  · have hleft := Finset.mem_of_mem_erase hi
    refine Finset.mem_erase.mpr ⟨?_, hf.closed i hleft j hj hji⟩
    intro hjq
    rw [← hji, hjq] at hleft
    exact hf.uppermost q List.mem_cons_self hleft
  · obtain ⟨hne, hi⟩ := Finset.mem_erase.mp hi
    rw [hmem, Finset.mem_erase]
    obtain hqueued | habove := hf.reached i hi
    · exact .inl (.inr ((List.mem_cons.mp hqueued).resolve_left hne))
    · by_cases hiq : i / 2 = q
      · exact .inl (.inl ⟨(hf.within i hi).2, hiq⟩)
      · exact .inr ⟨hiq, habove⟩
  · obtain ⟨-, hiq⟩ | hi := (hmem i).mp hi
    · rw [hiq]
      exact Finset.notMem_erase q S
    · exact fun habove =>
        hf.uppermost i (List.mem_cons_of_mem q hi) (Finset.mem_of_mem_erase habove)

theorem Frontier.done (hf : Frontier n S []) : S = ∅ := by
  have hnone : ∀ i, i ∉ S := by
    intro i
    induction i using Nat.strongRec with
    | ind i ih =>
        intro hi
        have hpos := (hf.within i hi).1
        obtain hqueued | habove := hf.reached i hi
        · exact List.not_mem_nil hqueued
        · exact ih (i / 2) (by omega) habove
  exact Finset.eq_empty_of_forall_notMem hnone

/-- The memory of the positions that are left, whose entries are those in use. -/
structure Remaining (h : Heap α) (n : ℕ) (node entry : ℕ → ℕ) (S : Finset ℕ) : Prop where
  left : ∀ i ∈ S, (h.nodes (node i)).left = position n node (2 * i)
  right : ∀ i ∈ S, (h.nodes (node i)).right = position n node (2 * i + 1)
  holds : ∀ i ∈ S, (h.nodes (node i)).entry = some (entry i)
  used : ∀ i ∈ S, h.entryUsed (entry i) = true
  onto : ∀ e, h.entryUsed e = true → ∃ i ∈ S, entry i = e

/-- The `next` fields run through the queue. -/
def Chained (h : Heap α) (node : ℕ → ℕ) : List ℕ → Prop
  | [] => True
  | q :: queue => (h.nodes (node q)).next = queue.head?.map node ∧ Chained h node queue

theorem Remaining.modifyNode (hr : Remaining h n node entry S) {k : ℕ} {f : HeapNode → HeapNode}
    (hleft : ∀ v, (f v).left = v.left) (hright : ∀ v, (f v).right = v.right)
    (hentry : ∀ v, (f v).entry = v.entry) :
    Remaining (h.modifyNode k f) n node entry S where
  left i hi := by
    rw [modifyNode_nodes]
    split_ifs
    · exact (hleft _).trans (hr.left i hi)
    · exact hr.left i hi
  right i hi := by
    rw [modifyNode_nodes]
    split_ifs
    · exact (hright _).trans (hr.right i hi)
    · exact hr.right i hi
  holds i hi := by
    rw [modifyNode_nodes]
    split_ifs
    · exact (hentry _).trans (hr.holds i hi)
    · exact hr.holds i hi
  used := hr.used
  onto := hr.onto

theorem Chained.congr {h' : Heap α}
    (hnext : ∀ i ∈ queue, (h'.nodes (node i)).next = (h.nodes (node i)).next)
    (hc : Chained h node queue) : Chained h' node queue := by
  induction queue with
  | nil => exact trivial
  | cons q queue ih =>
      exact ⟨(hnext q List.mem_cons_self).trans hc.1,
        ih (fun i hi => hnext i (List.mem_cons_of_mem q hi)) hc.2⟩

theorem Chained.modifyNode {k : ℕ} {f : HeapNode → HeapNode} (hk : ∀ i ∈ queue, node i ≠ k)
    (hc : Chained h node queue) : Chained (h.modifyNode k f) node queue :=
  hc.congr fun i hi => by rw [modifyNode_nodes, if_neg (hk i hi)]

theorem Chained.discard {k e : ℕ} (hk : ∀ i ∈ queue, node i ≠ k) (hc : Chained h node queue) :
    Chained (h.discard k e) node queue :=
  hc.congr fun i hi => by rw [discard_nodes, if_neg (hk i hi)]

theorem Remaining.enqueue (hr : Remaining h n node entry S) (hc : Chained h node queue)
    (hpos : 1 ≤ c) (hne : c ≤ n → ∀ i ∈ queue, node i ≠ node c) :
    ∃ h', h.enqueue (position n node c) (queue.head?.map node) =
        (h', (enqueuePosition n c queue).head?.map node) ∧
      Remaining h' n node entry S ∧ Chained h' node (enqueuePosition n c queue) := by
  by_cases hcn : c ≤ n
  · rw [position_of_mem _ ⟨hpos, hcn⟩, enqueuePosition, if_pos hcn]
    refine ⟨_, rfl, hr.modifyNode (fun _ => rfl) (fun _ => rfl) fun _ => rfl, ?_,
      hc.modifyNode (hne hcn)⟩
    rw [modifyNode_nodes, if_pos rfl]
  · rw [position_of_lt _ (Nat.lt_of_not_le hcn), enqueuePosition, if_neg hcn]
    exact ⟨h, rfl, hr, hc⟩

theorem Remaining.discard (hr : Remaining h n node entry S) (hq : q ∈ S)
    (hnode : ∀ i ∈ S, i ≠ q → node i ≠ node q) (hentry : ∀ i ∈ S, i ≠ q → entry i ≠ entry q) :
    Remaining (h.discard (node q) (entry q)) n node entry (S.erase q) := by
  have hkeep : ∀ i ∈ S.erase q, (h.discard (node q) (entry q)).nodes (node i) =
      h.nodes (node i) := by
    intro i hi
    obtain ⟨hne, hi⟩ := Finset.mem_erase.mp hi
    rw [discard_nodes, if_neg (hnode i hi hne)]
  refine ⟨fun i hi => ?_, fun i hi => ?_, fun i hi => ?_, fun i hi => ?_, fun e he => ?_⟩
  · rw [hkeep i hi]
    exact hr.left i (Finset.mem_of_mem_erase hi)
  · rw [hkeep i hi]
    exact hr.right i (Finset.mem_of_mem_erase hi)
  · rw [hkeep i hi]
    exact hr.holds i (Finset.mem_of_mem_erase hi)
  · obtain ⟨hne, hi⟩ := Finset.mem_erase.mp hi
    exact (Function.update_of_ne (hentry i hi hne) _ _).trans (hr.used i hi)
  · have hne : e ≠ entry q := by
      rintro rfl
      have hused : (h.discard (node q) (entry q)).entryUsed (entry q) = false :=
        Function.update_self _ _ _
      exact absurd (hused.symm.trans he) (by decide)
    obtain ⟨i, hi, hie⟩ := hr.onto e ((Function.update_of_ne hne _ _).symm.trans he)
    refine ⟨i, Finset.mem_erase.mpr ⟨?_, hi⟩, hie⟩
    rintro rfl
    exact hne hie.symm

/-- The loop takes every position that is left and releases its entry. -/
theorem clearLoop_eq (hnode : ∀ i j, 1 ≤ i ∧ i ≤ n → 1 ≤ j ∧ j ≤ n → node i = node j → i = j)
    (hentry : ∀ i j, 1 ≤ i ∧ i ≤ n → 1 ≤ j ∧ j ≤ n → entry i = entry j → i = j) {fuel : ℕ}
    (hf : Frontier n S queue) (hr : Remaining h n node entry S) (hc : Chained h node queue)
    (hfuel : S.card < fuel) :
    ∃ h', clearLoop fuel h (queue.head?.map node) = some h' ∧ ∀ e, h'.entryUsed e = false := by
  induction fuel generalizing h S queue with
  | zero => exact absurd hfuel (Nat.not_lt_zero _)
  | succ fuel ih =>
      cases queue with
      | nil =>
          refine ⟨h, rfl, fun e => Bool.eq_false_iff.mpr fun he => ?_⟩
          obtain ⟨i, hi, -⟩ := hr.onto e he
          rw [hf.done] at hi
          exact absurd hi (Finset.notMem_empty i)
      | cons q queue =>
          have hq := hf.subset q List.mem_cons_self
          have hwithin : ∀ i ∈ q :: queue, 1 ≤ i ∧ i ≤ n := fun i hi =>
            hf.within i (hf.subset i hi)
          have hqn := hwithin q List.mem_cons_self
          have hnext := hf.step
          have hfresh : ∀ i ∈ queue, i / 2 ≠ q := fun i hi hiq =>
            hf.uppermost i (List.mem_cons_of_mem q hi) (hiq ▸ hq)
          have hqueue : ∀ i ∈ queue, node i ≠ node q := by
            intro i hi he
            have hiq := hnode i q (hwithin i (List.mem_cons_of_mem q hi)) hqn he
            exact (List.nodup_cons.mp hf.nodup).1 (hiq ▸ hi)
          have hr₁ := hr.modifyNode (k := node q) (f := ({ · with next := none }))
            (fun _ => rfl) (fun _ => rfl) fun _ => rfl
          have hc₁ := hc.2.modifyNode (k := node q) (f := ({ · with next := none })) hqueue
          obtain ⟨h₂, hleft, hr₂, hc₂⟩ := hr₁.enqueue hc₁ (show 1 ≤ 2 * q by omega) (by
            intro hcn i hi he
            have := hnode i _ (hwithin i (List.mem_cons_of_mem q hi)) (by omega) he
            exact hfresh i hi (by omega))
          obtain ⟨h₃, hright, hr₃, hc₃⟩ := hr₂.enqueue hc₂ (show 1 ≤ 2 * q + 1 by omega) (by
            intro hcn i hi he
            obtain ⟨-, rfl⟩ | hi := mem_enqueuePosition.mp hi
            · have := hnode _ _ (by omega) (by omega) he
              omega
            · have := hnode i _ (hwithin i (List.mem_cons_of_mem q hi)) (by omega) he
              exact hfresh i hi (by omega))
          have hr₄ := hr₃.modifyNode (k := node q) (f := ({ · with signed := false }))
            (fun _ => rfl) (fun _ => rfl) fun _ => rfl
          have hrest : ∀ i ∈ enqueuePosition n (2 * q + 1) (enqueuePosition n (2 * q) queue),
              node i ≠ node q := by
            intro i hi he
            have hmem := hnext.subset i hi
            have hiq := hnode i q (hnext.within i hmem) hqn he
            exact (Finset.mem_erase.mp hmem).1 hiq
          have hc₄ := hc₃.modifyNode (k := node q) (f := ({ · with signed := false })) hrest
          have hof : (h₃.modifyNode (node q) ({ · with signed := false })).entryOf (node q) =
              some (entry q) := by
            rw [Heap.entryOf, hr₄.holds q hq, Option.filter_some, if_pos (hr₄.used q hq)]
          have hr₅ := hr₄.discard hq
            (fun i hi hne he => hne (hnode i q (hf.within i hi) hqn he))
            fun i hi hne he => hne (hentry i q (hf.within i hi) hqn he)
          have hcard : (S.erase q).card < fuel := by
            rw [Finset.card_erase_of_mem hq]
            have := Finset.card_pos.mpr ⟨q, hq⟩
            omega
          obtain ⟨h', hrun, hempty⟩ := ih hnext hr₅ (hc₄.discard hrest) hcard
          refine ⟨h', ?_, hempty⟩
          rw [List.head?_cons, Option.map_some, clearLoop]
          dsimp only
          rw [hr₁.left q hq, hc.1, hleft]
          dsimp only
          rw [hr₂.right q hq, hright]
          dsimp only
          rw [hof]
          exact hrun

theorem Layout.clear (hl : Layout h n node entry) (hsize : h.size = n) :
    ∃ h', h.clear = some h' ∧ Layout h' 0 node entry ∧ h'.size = 0 := by
  by_cases hn : n = 0
  · subst hn
    exact ⟨h, by rw [Heap.clear, if_pos hsize], hl, hsize⟩
  · have hn : 1 ≤ n := Nat.one_le_iff_ne_zero.mpr hn
    have hone : 1 ≤ 1 ∧ 1 ≤ n := ⟨le_refl 1, hn⟩
    have hcard : (Finset.Icc 1 n).card < h.size + 1 := by
      rw [Nat.card_Icc, hsize]
      omega
    have hr : Remaining h n node entry (Finset.Icc 1 n) :=
      ⟨fun i hi => hl.left i (Finset.mem_Icc.mp hi),
        fun i hi => hl.right i (Finset.mem_Icc.mp hi),
        fun i hi => hl.holds i (Finset.mem_Icc.mp hi),
        fun i hi => hl.entryUsed i (Finset.mem_Icc.mp hi), fun e he => by
          obtain ⟨i, hi, hie⟩ := hl.onto e he
          exact ⟨i, Finset.mem_Icc.mpr hi, hie⟩⟩
    obtain ⟨h', hrun, hempty⟩ := clearLoop_eq hl.distinct
      (fun i j hi hj => (hl.entry_inj hi hj).mp) (Frontier.init hn) hr
      ⟨hl.next 1 hone, trivial⟩ hcard
    refine ⟨{ h' with root := none, size := 0 }, ?_, Layout.empty rfl hempty, rfl⟩
    have hroot : h.root = [1].head?.map node := hl.root.trans (position_of_mem _ hone)
    rw [Heap.clear, if_neg (by omega), hroot, hrun]
    rfl

end Clear

end Heap

end Utils

end PomeloUdp
