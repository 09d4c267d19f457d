import Mathlib.Data.Multiset.MapFold
import PomeloUdp.Utils.HeapOperations

/-!
# The structure of the heap over a run

Along any sequence of calls the heap has a layout, whose entries are the handles
that were not removed. What a user can see of it follows: the links reach a
complete binary tree of `size` nodes, the elements in the tree are the pushed ones
that were not removed, and a handle leads to its node and back.
-/

namespace PomeloUdp

namespace Utils

open BinaryHeap

variable {α : Type}

namespace Heap

/-- The links from the root form a complete binary tree of `size` nodes. -/
structure Complete (h : Heap α) : Prop where
  occupied : ∀ i, (h.nodeAt i).isSome ↔ 1 ≤ i ∧ i ≤ h.size
  distinct : ∀ i j node, h.nodeAt i = some node → h.nodeAt j = some node → i = j
  reachable : ∀ node, h.Reachable node ↔ ∃ i, h.nodeAt i = some node
  parent : ∀ i node, h.nodeAt i = some node → (h.nodes node).parent = h.nodeAt (i / 2)
  left : ∀ i node, h.nodeAt i = some node → (h.nodes node).left = h.nodeAt (2 * i)
  right : ∀ i node, h.nodeAt i = some node → (h.nodes node).right = h.nodeAt (2 * i + 1)

variable {h : Heap α} {n : ℕ} {node entry : ℕ → ℕ}

theorem Links.nodeAt (hl : Links h n node) (i : ℕ) : h.nodeAt i = position n node i := by
  induction i using Nat.strongRec with
  | ind i ih =>
      rw [nodeAt.eq_def]
      by_cases hzero : i = 0
      · rw [if_pos hzero, hzero, position_zero]
      by_cases hone : i = 1
      · rw [if_neg hzero, if_pos hone, hone]
        exact hl.root
      rw [if_neg hzero, if_neg hone, ih (i / 2) (by omega)]
      by_cases hp : i / 2 ≤ n
      · have hmem : 1 ≤ i / 2 ∧ i / 2 ≤ n := by omega
        rw [position_of_mem _ hmem]
        refine (Option.bind_some _ _).trans ?_
        rw [hl.left _ hmem, hl.right _ hmem]
        by_cases hodd : i % 2 = 1
        · rw [if_pos hodd]
          congr 1
          omega
        · rw [if_neg hodd]
          congr 1
          omega
      · rw [position_of_lt _ (by omega), position_of_lt _ (by omega)]
        rfl

theorem position_eq_some {i k : ℕ} (hk : position n node i = some k) :
    (1 ≤ i ∧ i ≤ n) ∧ node i = k := by
  by_cases hi : 1 ≤ i ∧ i ≤ n
  · rw [position_of_mem _ hi] at hk
    exact ⟨hi, Option.some_inj.mp hk⟩
  · rw [position, if_neg hi] at hk
    cases hk

theorem Links.reachable (hl : Links h n node) (k : ℕ) :
    h.Reachable k ↔ ∃ i, (1 ≤ i ∧ i ≤ n) ∧ node i = k := by
  constructor
  · intro hk
    induction hk with
    | root hroot => exact ⟨1, position_eq_some (hl.root.symm.trans hroot)⟩
    | left hnode hchild ih =>
        obtain ⟨i, hi, rfl⟩ := ih
        exact ⟨2 * i, position_eq_some ((hl.left i hi).symm.trans hchild)⟩
    | right hnode hchild ih =>
        obtain ⟨i, hi, rfl⟩ := ih
        exact ⟨2 * i + 1, position_eq_some ((hl.right i hi).symm.trans hchild)⟩
  · rintro ⟨i, hi, rfl⟩
    induction i using Nat.strongRec with
    | ind i ih =>
        by_cases hone : i = 1
        · subst hone
          exact .root (hl.root.trans (position_of_mem _ hi))
        · have hp : 1 ≤ i / 2 ∧ i / 2 ≤ n := by omega
          have habove := ih (i / 2) (by omega) hp
          by_cases hodd : i = 2 * (i / 2) + 1
          · refine habove.right ?_
            rw [hl.right _ hp, ← hodd, position_of_mem _ hi]
          · refine habove.left ?_
            rw [hl.left _ hp, show 2 * (i / 2) = i by omega, position_of_mem _ hi]

theorem Links.complete (hl : Links h n node) (hsize : h.size = n) : h.Complete where
  occupied i := by
    rw [hl.nodeAt, hsize, position]
    split_ifs with hi
    · exact iff_of_true rfl hi
    · exact iff_of_false (by decide) hi
  distinct i j k hi hj := by
    rw [hl.nodeAt] at hi hj
    obtain ⟨hin, rfl⟩ := position_eq_some hi
    obtain ⟨hjn, hij⟩ := position_eq_some hj
    exact hl.distinct i j hin hjn hij.symm
  reachable k := by
    rw [hl.reachable]
    refine exists_congr fun i => ⟨fun hi => ?_, fun hi => ?_⟩
    · rw [hl.nodeAt, position_of_mem _ hi.1, hi.2]
    · exact position_eq_some ((hl.nodeAt i).symm.trans hi)
  parent i k hi := by
    rw [hl.nodeAt] at hi
    obtain ⟨hin, rfl⟩ := position_eq_some hi
    rw [hl.nodeAt, hl.parent i hin]
  left i k hi := by
    rw [hl.nodeAt] at hi
    obtain ⟨hin, rfl⟩ := position_eq_some hi
    rw [hl.nodeAt, hl.left i hin]
  right i k hi := by
    rw [hl.nodeAt] at hi
    obtain ⟨hin, rfl⟩ := position_eq_some hi
    rw [hl.nodeAt, hl.right i hin]

theorem Layout.elementAt (hl : Layout h n node entry) {i : ℕ} (hi : 1 ≤ i ∧ i ≤ n) :
    h.elementAt i = some (h.elements (entry i)) := by
  rw [Heap.elementAt, hl.nodeAt, position_of_mem _ hi, Option.bind_some, hl.element hi]

theorem Layout.stored (hl : Layout h n node entry) (hsize : h.size = n) :
    h.stored = (contents n entry).map h.elements := by
  have hlist : ∀ m, m ≤ n →
      ((List.range m).filterMap fun i => h.elementAt (i + 1) : Multiset α) =
        (contents m entry).map h.elements := by
    intro m
    induction m with
    | zero => intro _; rfl
    | succ m ih =>
        intro hm
        have hlast : [m].filterMap (fun i => h.elementAt (i + 1)) =
            [h.elements (entry (m + 1))] :=
          List.filterMap_cons_some (hl.elementAt (show 1 ≤ m + 1 ∧ m + 1 ≤ n by omega))
        rw [contents_succ, Multiset.map_add, ← ih (by omega), List.range_succ,
          List.filterMap_append, ← Multiset.coe_add, Multiset.map_singleton, hlast,
          Multiset.coe_singleton]
  rw [Heap.stored, hsize]
  exact hlist n (le_refl n)

end Heap

namespace HeapLedger

open Heap

/-- The heap as a user sees it, held against its history. -/
structure Sound (l : HeapLedger α) : Prop where
  complete : l.heap.Complete
  stored : l.heap.stored + l.removed = l.pushed
  handle : ∀ entry element, l.handles entry = some element →
    (l.heap.entries entry).element = element ∧
      l.heap.Reachable (l.heap.entries entry).node ∧
      (l.heap.nodes (l.heap.entries entry).node).entry = some entry
  live : ∀ node, l.heap.Reachable node →
    ∃ entry, (l.heap.nodes node).entry = some entry ∧
      (l.heap.entries entry).node = node ∧ (l.handles entry).isSome

/-- The layout of the heap in a ledger: its entries are the live handles. -/
structure Laid (l : HeapLedger α) (n : ℕ) (node entry : ℕ → ℕ) : Prop where
  layout : l.heap.Layout n node entry
  size : l.heap.size = n
  live : ∀ e ∈ contents n entry, l.handles e = some (l.heap.elements e)
  dead : ∀ e, e ∉ contents n entry → l.handles e = none
  balance : (contents n entry).map l.heap.elements + l.removed = l.pushed

variable {l : HeapLedger α} {n : ℕ} {node entry : ℕ → ℕ}

theorem Laid.sound (hl : Laid l n node entry) : Sound l where
  complete := hl.layout.complete hl.size
  stored := by
    rw [hl.layout.stored hl.size]
    exact hl.balance
  handle e x he := by
    have hmem : e ∈ contents n entry := by
      by_contra hdead
      rw [hl.dead e hdead] at he
      cases he
    have helement := Option.some_inj.mp ((hl.live e hmem).symm.trans he)
    obtain ⟨i, hi, hn, rfl⟩ := mem_contents.mp hmem
    refine ⟨helement, ?_, ?_⟩
    · rw [hl.layout.back i ⟨hi, hn⟩, hl.layout.reachable]
      exact ⟨i, ⟨hi, hn⟩, rfl⟩
    · rw [hl.layout.back i ⟨hi, hn⟩, hl.layout.holds i ⟨hi, hn⟩]
  live k hk := by
    obtain ⟨i, hi, rfl⟩ := (hl.layout.reachable k).mp hk
    refine ⟨entry i, hl.layout.holds i hi, hl.layout.back i hi, ?_⟩
    rw [hl.live _ (mem_contents.mpr ⟨i, hi.1, hi.2, rfl⟩)]
    rfl

theorem Laid.create (nodes : ℕ → HeapNode) (entries : ℕ → HeapEntry α) (node entry : ℕ → ℕ) :
    Laid (create nodes entries) 0 node entry :=
  ⟨Layout.empty rfl fun _ => rfl, rfl, fun e he => absurd he (Multiset.notMem_zero e),
    fun _ _ => rfl, rfl⟩

section Calls

variable (compare : α → α → ℤ)

theorem Laid.notMem (hl : Laid l n node entry) {e : ℕ} (he : l.heap.entryUsed e = false) :
    e ∉ contents n entry := by
  intro hmem
  obtain ⟨i, hi, hn, hie⟩ := mem_contents.mp hmem
  exact hl.layout.entry_ne he ⟨hi, hn⟩ hie

theorem Laid.push (hl : Laid l n node entry) {new e : ℕ} (x : α)
    (hnew : l.heap.nodeUsed new = false) (he : l.heap.entryUsed e = false) :
    ∃ l', l.call compare (.push new e x) = some l' ∧
      Laid l' (n + 1) (Function.update node (n + 1) new)
        (siftUp (precedes compare (Function.update l.heap.elements e x))
          (Function.update entry (n + 1) e) (n + 1)) ∧
      l'.heap.elements = Function.update l.heap.elements e x := by
  obtain ⟨h', hrun, hlayout, hsize, helements⟩ :=
    hl.layout.push compare (x := x) hl.size hnew he
  have hfresh := hl.notMem he
  have hcontents : contents (n + 1)
      (siftUp (precedes compare (Function.update l.heap.elements e x))
        (Function.update entry (n + 1) e) (n + 1)) = contents n entry + {e} := by
    rw [contents_siftUp _ (by omega), contents_succ, Function.update_self]
    congr 1
    apply contents_congr
    intro i _ hn
    exact Function.update_of_ne (by omega) _ _
  have hkeep : ∀ e' ∈ contents n entry,
      Function.update l.heap.elements e x e' = l.heap.elements e' := by
    intro e' he'
    refine Function.update_of_ne ?_ _ _
    rintro rfl
    exact hfresh he'
  refine ⟨_, by rw [call, hrun]; rfl, ?_, helements⟩
  constructor
  · exact hlayout
  · exact hsize
  · intro e' he'
    rw [helements]
    rw [hcontents, Multiset.mem_add, Multiset.mem_singleton] at he'
    by_cases hee : e' = e
    · rw [hee, Function.update_self]
      exact Function.update_self _ _ _
    · rw [Function.update_of_ne hee]
      exact (Function.update_of_ne hee _ _).trans (hl.live e' (he'.resolve_right hee))
  · intro e' he'
    rw [hcontents, Multiset.mem_add, Multiset.mem_singleton, not_or] at he'
    exact (Function.update_of_ne he'.2 _ _).trans (hl.dead e' he'.1)
  · rw [hcontents, helements, Multiset.map_add, Multiset.map_singleton, Function.update_self,
      Multiset.map_congr rfl hkeep, add_right_comm, hl.balance, add_comm,
      Multiset.singleton_add]

theorem Laid.removed (hl : Laid l (n + 1) node entry) {p : ℕ} (hp : 1 ≤ p ∧ p ≤ n + 1) :
    ∃ h', Heap.removeNode compare l.heap (node p) = some h' ∧
      Laid ⟨h', Function.update l.handles (entry p) none, l.pushed,
          l.heap.elements (entry p) ::ₘ l.removed⟩ n node
        (siftDown (precedes compare l.heap.elements) n (exchange entry p (n + 1)) p) ∧
      h'.elements = l.heap.elements := by
  obtain ⟨h', hrun, hlayout, hsize, helements⟩ := hl.layout.removeNode compare hl.size hp
  have hcontents : contents (n + 1) entry =
      contents n (siftDown (precedes compare l.heap.elements) n
        (exchange entry p (n + 1)) p) + {entry p} := by
    rw [contents_siftDown _ hp.1,
      ← contents_exchange entry hp (show 1 ≤ n + 1 ∧ n + 1 ≤ n + 1 by omega), contents_succ,
      exchange_right]
  have hgone : entry p ∉ contents n (siftDown (precedes compare l.heap.elements) n
      (exchange entry p (n + 1)) p) := by
    rw [contents_siftDown _ hp.1]
    intro hmem
    obtain ⟨i, hi, hin, hie⟩ := mem_contents.mp hmem
    by_cases hip : i = p
    · rw [hip, exchange_left] at hie
      have := (hl.layout.entry_inj (by omega) hp).mp hie
      omega
    · rw [exchange_of_ne _ hip (by omega)] at hie
      exact hip ((hl.layout.entry_inj (by omega) hp).mp hie)
  refine ⟨h', hrun, ⟨hlayout, hsize, fun e he => ?_, fun e he => ?_, ?_⟩, helements⟩
  · have hne : e ≠ entry p := by
      rintro rfl
      exact hgone he
    dsimp only
    rw [Function.update_of_ne hne, helements]
    apply hl.live
    rw [hcontents]
    exact Multiset.mem_add.mpr (.inl he)
  · by_cases hep : e = entry p
    · rw [hep]
      exact Function.update_self _ _ _
    · refine (Function.update_of_ne hep _ _).trans (hl.dead e ?_)
      rw [hcontents, Multiset.mem_add, Multiset.mem_singleton]
      exact not_or.mpr ⟨he, hep⟩
  · have hbalance := hl.balance
    rw [hcontents, Multiset.map_add, Multiset.map_singleton] at hbalance
    rw [helements, ← hbalance, add_assoc, Multiset.singleton_add]

theorem Laid.pop_empty (hl : Laid l 0 node entry) : l.call compare .pop = some l := by
  rw [call, Heap.pop, if_pos hl.size]
  rfl

theorem Laid.pop (hl : Laid l (n + 1) node entry) :
    ∃ l', l.call compare .pop = some l' ∧
      Laid l' n node
        (siftDown (precedes compare l.heap.elements) n (exchange entry 1 (n + 1)) 1) ∧
      l'.heap.elements = l.heap.elements := by
  have hone : 1 ≤ 1 ∧ 1 ≤ n + 1 := by omega
  obtain ⟨h', hrun, hl', helements⟩ := hl.removed compare hone
  have hroot : l.heap.root = some (node 1) := hl.layout.root.trans (position_of_mem _ hone)
  have hpop : l.heap.pop compare = some (some (l.heap.elements (entry 1)), h') := by
    rw [Heap.pop, if_neg (by rw [hl.size]; omega), hroot]
    refine (Option.bind_some _ _).trans ?_
    rw [hl.layout.element hone]
    refine (Option.bind_some _ _).trans ?_
    rw [hrun]
    rfl
  refine ⟨_, ?_, hl', helements⟩
  rw [call, hpop]
  refine (Option.bind_some _ _).trans ?_
  dsimp only
  rw [hroot]
  refine (Option.bind_some _ _).trans ?_
  rw [hl.layout.entryOf hone]
  rfl

theorem Laid.exists_entry (hl : Laid l n node entry) {e : ℕ} (he : (l.handles e).isSome) :
    ∃ i, (1 ≤ i ∧ i ≤ n) ∧ entry i = e := by
  have hmem : e ∈ contents n entry := by
    by_contra hdead
    rw [hl.dead e hdead] at he
    cases he
  obtain ⟨i, hi, hn, hie⟩ := mem_contents.mp hmem
  exact ⟨i, ⟨hi, hn⟩, hie⟩

theorem Laid.remove (hl : Laid l (n + 1) node entry) {i : ℕ} (hi : 1 ≤ i ∧ i ≤ n + 1) :
    ∃ l', l.call compare (.remove (entry i)) = some l' ∧
      Laid l' n node
        (siftDown (precedes compare l.heap.elements) n (exchange entry i (n + 1)) i) ∧
      l'.heap.elements = l.heap.elements := by
  have hhandle := hl.live _ (mem_contents.mpr ⟨i, hi.1, hi.2, rfl⟩)
  obtain ⟨h', hrun, hl', helements⟩ := hl.removed compare hi
  refine ⟨_, ?_, hl', helements⟩
  rw [call, hhandle]
  refine (Option.bind_some _ _).trans ?_
  rw [Heap.remove, hl.layout.back i hi, hrun]
  rfl

theorem Laid.clear (hl : Laid l n node entry) :
    ∃ l', l.call compare .clear = some l' ∧ Laid l' 0 node entry := by
  obtain ⟨h', hrun, hlayout, hsize⟩ := hl.layout.clear hl.size
  refine ⟨_, by rw [call, hrun]; rfl, hlayout, hsize,
    fun e he => absurd he (Multiset.notMem_zero e), fun _ _ => rfl, ?_⟩
  exact zero_add _

theorem Laid.call (hl : Laid l n node entry) {c : HeapCall α} (hc : l.Allowed c) :
    ∃ l', l.call compare c = some l' ∧ ∃ n' node' entry', Laid l' n' node' entry' := by
  cases c with
  | push new e x =>
      obtain ⟨l', hrun, hl', -⟩ := hl.push compare x hc.1 hc.2
      exact ⟨l', hrun, _, _, _, hl'⟩
  | pop =>
      cases n with
      | zero => exact ⟨l, hl.pop_empty compare, 0, node, entry, hl⟩
      | succ n =>
          obtain ⟨l', hrun, hl', -⟩ := hl.pop compare
          exact ⟨l', hrun, n, node, _, hl'⟩
  | remove e =>
      obtain ⟨i, hi, rfl⟩ := hl.exists_entry hc
      obtain ⟨n, rfl⟩ := Nat.exists_eq_add_of_le' (hi.1.trans hi.2)
      obtain ⟨l', hrun, hl', -⟩ := hl.remove compare hi
      exact ⟨l', hrun, n, node, _, hl'⟩
  | clear =>
      obtain ⟨l', hrun, hl'⟩ := hl.clear compare
      exact ⟨l', hrun, 0, node, entry, hl'⟩

/-- Every run of allowed calls keeps a layout. -/
theorem laid_run (nodes : ℕ → HeapNode) (entries : ℕ → HeapEntry α) {calls : List (HeapCall α)}
    (h : Machine.Along (step compare) Respects (some (create nodes entries)) calls) :
    ∃ l, Machine.run (step compare) (some (create nodes entries)) calls = some l ∧
      ∃ n node entry, Laid l n node entry := by
  refine Machine.invariant_run (I := fun s => ∃ l, s = some l ∧ ∃ n node entry, Laid l n node entry)
    ?_ ⟨_, rfl, 0, id, id, Laid.create nodes entries id id⟩ h
  rintro s c ⟨l, rfl, n, node, entry, hl⟩ hc
  exact hl.call compare (hc l rfl)

/-- Every sequence of calls leaves a complete tree of the elements that were pushed
and not removed, and handles that lead to their elements. -/
theorem heapSound_run (nodes : ℕ → HeapNode) (entries : ℕ → HeapEntry α) (calls : List (HeapCall α))
    (h : Machine.Along (step compare) Respects (some (create nodes entries)) calls) :
    ∃ l, Machine.run (step compare) (some (create nodes entries)) calls = some l ∧ l.Sound := by
  obtain ⟨l, hrun, n, node, entry, hl⟩ := laid_run compare nodes entries h
  exact ⟨l, hrun, hl.sound⟩

end Calls

/-- Two pushes and the removal of the first handle. -/
theorem sound_pushPushRemove :
    ∃ l, Machine.run (step fun a b : ℕ => (a : ℤ) - b)
        (some (create (fun _ => ⟨none, none, none, none, none, false⟩) fun _ => ⟨0, 0⟩))
        [.push 0 0 7, .push 1 1 5, .remove 0] = some l ∧ l.Sound := by
  apply heapSound_run
  decide +kernel

end HeapLedger

end Utils

end PomeloUdp
