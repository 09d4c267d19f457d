import PomeloUdp.Utils.HeapStructure

/-!
# The order of the heap over a run

A removal fills the place of an inner entry with the last one and sifts it down
only. Where the last element precedes the parent of that place the order is lost:
the element stays below a greater one. `InOrder` is the condition on a removal
under which it is kept, and the heap is in order along a run exactly if all its
removals meet the condition.
-/

namespace PomeloUdp

namespace Utils

open BinaryHeap

variable {α : Type} (compare : α → α → ℤ)

/-- A compare function of a total preorder. -/
structure TotalPreorder : Prop where
  swap : ∀ a b, compare a b < 0 ↔ 0 < compare b a
  trans : ∀ a b c, compare a b ≤ 0 → compare b c ≤ 0 → compare a c ≤ 0

namespace TotalPreorder

variable {compare}

theorem nonneg_iff (h : TotalPreorder compare) (a b : α) :
    ¬compare a b < 0 ↔ compare b a ≤ 0 := by
  rw [h.swap a b, not_lt]

theorem strictWeak (h : TotalPreorder compare) (element : ℕ → α) :
    StrictWeak (Heap.precedes compare element) where
  asymm a b hab := by
    rw [Heap.precedes, decide_eq_true_iff] at hab
    rw [Heap.precedes, decide_eq_false_iff_not, h.nonneg_iff]
    exact le_of_lt hab
  trans a b c hab hbc := by
    rw [Heap.precedes, decide_eq_false_iff_not, h.nonneg_iff] at hab hbc ⊢
    exact h.trans _ _ _ hab hbc

end TotalPreorder

namespace Heap

/-- No element is smaller than the element of the parent, and the top and a pop give
a least one of those stored. -/
structure MinHeap (h : Heap α) : Prop where
  ordered : ∀ node parent x y, h.Reachable node → (h.nodes node).parent = some parent →
    h.element node = some x → h.element parent = some y → compare y x ≤ 0
  top : h.size ≠ 0 → ∃ x ∈ h.stored, h.top = some (some x) ∧ ∀ y ∈ h.stored, compare x y ≤ 0
  pop : h.size ≠ 0 → ∃ x ∈ h.stored, ∃ h', h.pop compare = some (some x, h') ∧
    ∀ y ∈ h.stored, compare x y ≤ 0

/-- A removal that keeps the order: of the last node, or of one whose parent does
not exceed the last element. -/
def InOrder (h : Heap α) (entry : ℕ) : Prop :=
  h.nodeAt h.size = some (h.entries entry).node ∨
    ∀ parent x y, (h.nodes (h.entries entry).node).parent = some parent →
      h.element parent = some x → h.elementAt h.size = some y → compare x y ≤ 0

variable {compare} {h : Heap α} {n : ℕ} {node entry : ℕ → ℕ}

theorem Layout.ordered_iff (hcompare : TotalPreorder compare) (hl : Layout h n node entry) :
    (∀ k parent x y, h.Reachable k → (h.nodes k).parent = some parent →
      h.element k = some x → h.element parent = some y → compare y x ≤ 0) ↔
      Ordered (precedes compare h.elements) n entry := by
  constructor
  · intro hall i hi hin
    have hmem : 1 ≤ i ∧ i ≤ n := by omega
    have hp : 1 ≤ i / 2 ∧ i / 2 ≤ n := by omega
    rw [precedes, decide_eq_false_iff_not, hcompare.nonneg_iff]
    exact hall (node i) (node (i / 2)) _ _ ((hl.reachable _).mpr ⟨i, hmem, rfl⟩)
      ((hl.parent i hmem).trans (position_of_mem _ hp)) (hl.element hmem) (hl.element hp)
  · intro hordered k parent x y hk hparent hx hy
    obtain ⟨i, hi, rfl⟩ := (hl.reachable k).mp hk
    rw [hl.parent i hi] at hparent
    obtain ⟨hp, rfl⟩ := position_eq_some hparent
    rw [hl.element hi] at hx
    rw [hl.element hp] at hy
    cases hx
    cases hy
    have hedge := hordered i (by omega) hi.2
    rwa [precedes, decide_eq_false_iff_not, hcompare.nonneg_iff] at hedge

theorem Layout.minHeap_iff (hcompare : TotalPreorder compare) (hl : Layout h n node entry)
    (hsize : h.size = n) :
    MinHeap compare h ↔ Ordered (precedes compare h.elements) n entry := by
  refine ⟨fun hmin => (hl.ordered_iff hcompare).mp hmin.ordered, fun hordered => ?_⟩
  have hleast : ∀ y ∈ h.stored, compare (h.elements (entry 1)) y ≤ 0 := by
    intro y hy
    rw [hl.stored hsize] at hy
    obtain ⟨e, he, rfl⟩ := Multiset.mem_map.mp hy
    obtain ⟨i, hi, hin, rfl⟩ := mem_contents.mp he
    have hroot := hordered.root_least (hcompare.strictWeak _) hi hin
    rwa [precedes, decide_eq_false_iff_not, hcompare.nonneg_iff] at hroot
  have hroot : h.size ≠ 0 → (1 ≤ 1 ∧ 1 ≤ n) ∧ h.root = some (node 1) := by
    intro hne
    have hone : 1 ≤ 1 ∧ 1 ≤ n := by omega
    exact ⟨hone, hl.root.trans (position_of_mem _ hone)⟩
  have hstored : h.size ≠ 0 → h.elements (entry 1) ∈ h.stored := by
    intro hne
    rw [hl.stored hsize]
    exact Multiset.mem_map_of_mem _ (mem_contents.mpr ⟨1, (hroot hne).1.1, (hroot hne).1.2, rfl⟩)
  refine ⟨(hl.ordered_iff hcompare).mpr hordered, fun hne => ?_, fun hne => ?_⟩
  · refine ⟨_, hstored hne, ?_, hleast⟩
    rw [Heap.top, if_neg hne, (hroot hne).2]
    refine (Option.bind_some _ _).trans ?_
    rw [hl.element (hroot hne).1]
    rfl
  · obtain ⟨hone, hrootNode⟩ := hroot hne
    obtain ⟨n, rfl⟩ := Nat.exists_eq_add_of_le' hone.2
    obtain ⟨h', hrun, -⟩ := hl.removeNode compare hsize hone
    refine ⟨_, hstored hne, h', ?_, hleast⟩
    rw [Heap.pop, if_neg hne, hrootNode]
    refine (Option.bind_some _ _).trans ?_
    rw [hl.element hone]
    refine (Option.bind_some _ _).trans ?_
    rw [hrun]
    rfl

theorem Layout.inOrder_iff (hcompare : TotalPreorder compare) (hl : Layout h n node entry)
    (hsize : h.size = n) {i : ℕ} (hi : 1 ≤ i ∧ i ≤ n) :
    InOrder compare h (entry i) ↔
      i = 1 ∨ i = n ∨ precedes compare h.elements (entry n) (entry (i / 2)) = false := by
  have hn : 1 ≤ n ∧ n ≤ n := by omega
  rw [InOrder, hsize, hl.nodeAt, position_of_mem _ hn, hl.back i hi, Option.some_inj,
    hl.node_inj hn hi, hl.parent i hi, hl.elementAt hn, precedes, decide_eq_false_iff_not,
    hcompare.nonneg_iff]
  by_cases hone : i = 1
  · refine iff_of_true (.inr ?_) (.inl hone)
    intro parent x y hparent
    rw [hone] at hparent
    cases (position_zero n node).symm.trans hparent
  · have hp : 1 ≤ i / 2 ∧ i / 2 ≤ n := by omega
    rw [position_of_mem _ hp, or_iff_right hone, eq_comm]
    refine or_congr_right ⟨fun hall => ?_, fun hle parent x y hparent hx hy => ?_⟩
    · exact hall _ _ _ rfl (hl.element hp) rfl
    · cases hparent
      rw [hl.element hp] at hx
      cases hx
      cases hy
      exact hle

end Heap

namespace HeapLedger

open Heap

/-- A removal meets the condition on it. -/
def InOrder (s : Option (HeapLedger α)) : HeapCall α → Prop
  | .remove entry => ∀ l, s = some l → l.heap.InOrder compare entry
  | _ => True

variable {compare} {l : HeapLedger α} {n : ℕ} {node entry : ℕ → ℕ}

theorem Laid.call_ordered (hcompare : TotalPreorder compare) (hl : Laid l n node entry)
    (hordered : Ordered (precedes compare l.heap.elements) n entry) {c : HeapCall α}
    (hc : l.Allowed c) :
    ∃ l', l.call compare c = some l' ∧ ∃ n' node' entry', Laid l' n' node' entry' ∧
      (Ordered (precedes compare l'.heap.elements) n' entry' ↔ InOrder compare (some l) c) := by
  have hless := hcompare.strictWeak l.heap.elements
  cases c with
  | push new e x =>
      obtain ⟨l', hrun, hl', helements⟩ := hl.push compare x hc.1 hc.2
      refine ⟨l', hrun, _, _, _, hl', iff_of_true ?_ trivial⟩
      have hkeep : Ordered (precedes compare (Function.update l.heap.elements e x)) n entry := by
        intro i hi hin
        have hpush := hordered i hi hin
        rwa [precedes, Function.update_of_ne (hl.layout.entry_ne hc.2 (by omega)),
          Function.update_of_ne (hl.layout.entry_ne hc.2 (by omega))]
      rw [helements]
      exact hkeep.insert (hcompare.strictWeak _) e
  | pop =>
      cases n with
      | zero =>
          exact ⟨l, hl.pop_empty compare, 0, node, entry, hl, iff_of_true hordered trivial⟩
      | succ n =>
          obtain ⟨l', hrun, hl', helements⟩ := hl.pop compare
          refine ⟨l', hrun, n, node, _, hl', iff_of_true ?_ trivial⟩
          rw [helements]
          exact hordered.replace hless (by omega) (.inl rfl)
  | remove e =>
      obtain ⟨i, hi, rfl⟩ := hl.exists_entry hc
      obtain ⟨n, rfl⟩ := Nat.exists_eq_add_of_le' (hi.1.trans hi.2)
      obtain ⟨l', hrun, hl', helements⟩ := hl.remove compare hi
      refine ⟨l', hrun, n, node, _, hl', ?_⟩
      rw [helements, hordered.replace_iff hless hi,
        ← hl.layout.inOrder_iff hcompare hl.size hi]
      constructor
      · rintro hin l₁ h₁
        cases h₁
        exact hin
      · intro hin
        exact hin l rfl
  | clear =>
      obtain ⟨l', hrun, hl'⟩ := hl.clear compare
      refine ⟨l', hrun, 0, node, entry, hl', iff_of_true ?_ trivial⟩
      intro i hi hin
      omega

theorem minHeap_run_from (hcompare : TotalPreorder compare) {calls : List (HeapCall α)}
    (hl : Laid l n node entry)
    (hordered : Ordered (precedes compare l.heap.elements) n entry)
    (h : Machine.Along (step compare) Respects (some l) calls) :
    (∀ k, ∃ l', Machine.run (step compare) (some l) (calls.take k) = some l' ∧
        MinHeap compare l'.heap) ↔
      Machine.Along (step compare) (InOrder compare) (some l) calls := by
  induction calls generalizing l n node entry with
  | nil =>
      refine iff_of_true (fun k => ⟨l, ?_, ?_⟩) trivial
      · rw [List.take_nil]
        rfl
      · exact (hl.layout.minHeap_iff hcompare hl.size).mpr hordered
  | cons c calls ih =>
      obtain ⟨hc, hrest⟩ := h
      obtain ⟨l₁, hcall, n₁, node₁, entry₁, hl₁, hiff⟩ :=
        hl.call_ordered hcompare hordered (hc l rfl)
      have hstep : step compare (some l) c = some l₁ := hcall
      rw [hstep] at hrest
      rw [Machine.along_cons, hstep, ← hiff]
      constructor
      · intro hall
        have hfirst : Ordered (precedes compare l₁.heap.elements) n₁ entry₁ := by
          obtain ⟨l', hrun, hmin⟩ := hall 1
          rw [List.take_succ_cons, List.take_zero, Machine.run_cons, hstep] at hrun
          cases hrun
          exact (hl₁.layout.minHeap_iff hcompare hl₁.size).mp hmin
        refine ⟨hfirst, (ih hl₁ hfirst hrest).mp fun k => ?_⟩
        obtain ⟨l', hrun, hmin⟩ := hall (k + 1)
        rw [List.take_succ_cons, Machine.run_cons, hstep] at hrun
        exact ⟨l', hrun, hmin⟩
      · rintro ⟨hfirst, hin⟩ k
        cases k with
        | zero => exact ⟨l, rfl, (hl.layout.minHeap_iff hcompare hl.size).mpr hordered⟩
        | succ k =>
            rw [List.take_succ_cons, Machine.run_cons, hstep]
            exact (ih hl₁ hfirst hrest).mpr hin k

/-- The heap is in order, and gives a least element, after each call of a run exactly if
all removals of the run meet their condition. -/
theorem minHeap_run (hcompare : TotalPreorder compare) (nodes : ℕ → HeapNode)
    (entries : ℕ → HeapEntry α) (calls : List (HeapCall α))
    (h : Machine.Along (step compare) Respects (some (create nodes entries)) calls) :
    (∀ k, ∃ l, Machine.run (step compare) (some (create nodes entries)) (calls.take k) = some l ∧
        MinHeap compare l.heap) ↔
      Machine.Along (step compare) (InOrder compare) (some (create nodes entries)) calls := by
  refine minHeap_run_from hcompare (Laid.create nodes entries id id) ?_ h
  intro i hi hin
  omega

section Numbers

/-- The difference of two numbers. -/
def difference (a b : ℕ) : ℤ := (a : ℤ) - b

theorem difference_totalPreorder : TotalPreorder difference where
  swap a b := by
    rw [difference, difference]
    omega
  trans a b c := by
    rw [difference, difference, difference]
    omega

/-- A heap of numbers that was just created. -/
def createNumbers : HeapLedger ℕ :=
  create (fun _ => ⟨none, none, none, none, none, false⟩) fun _ => ⟨0, 0⟩

/-- Seven numbers in level order and the removal of the fourth. -/
def sevenNumbers : List (HeapCall ℕ) :=
  [.push 0 0 1, .push 1 1 10, .push 2 2 2, .push 3 3 11, .push 4 4 12, .push 5 5 3, .push 6 6 4,
    .remove 3]

/-- Without removals of inner entries the heap stays in order. -/
theorem minHeap_pushPop :
    Machine.Along (step difference) (InOrder difference) (some createNumbers)
        [.push 0 0 7, .push 1 1 5, .pop] ∧
      ∀ k, ∃ l, Machine.run (step difference) (some createNumbers)
          ([HeapCall.push 0 0 7, .push 1 1 5, .pop].take k) = some l ∧
        MinHeap difference l.heap := by
  have hin : Machine.Along (step difference) (InOrder difference) (some createNumbers)
      [.push 0 0 7, .push 1 1 5, .pop] :=
    ⟨trivial, trivial, trivial, trivial⟩
  exact ⟨hin, (minHeap_run difference_totalPreorder _ _ _ (by decide +kernel)).mpr hin⟩

/-- After the removal of the fourth of seven numbers a 4 is below a 10. -/
theorem not_minHeap_sevenNumbers :
    Machine.Along (step difference) Respects (some createNumbers) sevenNumbers ∧
      ∃ l, Machine.run (step difference) (some createNumbers) sevenNumbers = some l ∧
        ¬MinHeap difference l.heap := by
  have hrespects : Machine.Along (step difference) Respects (some createNumbers) sevenNumbers := by
    decide +kernel
  refine ⟨hrespects, ?_⟩
  obtain ⟨l, hrun, n, node, entry, hl⟩ := laid_run difference _ _ hrespects
  refine ⟨l, hrun, fun hmin => ?_⟩
  have hedge : ((Machine.run (step difference) (some createNumbers) sevenNumbers).bind fun l => do
      let node ← l.heap.nodeAt 4
      let parent ← (l.heap.nodes node).parent
      let x ← l.heap.element node
      let y ← l.heap.element parent
      some (x, y)) = some (4, 10) := by
    decide +kernel
  have hrun' : Machine.run (step difference) (some createNumbers) sevenNumbers = some l := hrun
  rw [hrun', Option.bind_some] at hedge
  obtain ⟨k, hk, hedge⟩ := Option.bind_eq_some_iff.mp hedge
  obtain ⟨parent, hparent, hedge⟩ := Option.bind_eq_some_iff.mp hedge
  obtain ⟨x, hx, hedge⟩ := Option.bind_eq_some_iff.mp hedge
  obtain ⟨y, hy, hedge⟩ := Option.bind_eq_some_iff.mp hedge
  cases hedge
  have hle := hmin.ordered k parent _ _ ((hl.sound.complete.reachable k).mpr ⟨4, hk⟩) hparent hx hy
  exact absurd hle (by decide)

end Numbers

end HeapLedger

end Utils

end PomeloUdp
