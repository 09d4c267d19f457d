import Mathlib.Algebra.Group.Nat.Defs
import Mathlib.Data.Multiset.AddSub
import Mathlib.Logic.Function.Basic
import PomeloUdp.Library.Run

/-!
# The pointer heap

The heap is a binary tree of nodes that the heap acquires from a pool; a second
pool holds the entries. A node points to its entry and its entry points back, and
the sifts exchange the entries of two nodes, so that the entry a push returned is
a handle on the pushed element wherever it goes.

Nodes and entries are numbers. Both pools keep the memory of what is released,
and `heapifyDown` reads a node that was just released: the memory of a node and
the flag of the pool are therefore apart. An operation is `none` where the source
would follow a null pointer, fail an assertion or read a released entry.
-/

namespace PomeloUdp

namespace Utils

variable {α : Type}

/-- `pomelo_heap_node_t`. The signature of debug builds is set by a push and
cleared by a removal. -/
structure HeapNode where
  entry : Option ℕ
  parent : Option ℕ
  left : Option ℕ
  right : Option ℕ
  next : Option ℕ
  signed : Bool

/-- `pomelo_heap_entry_t` with the element behind it. -/
structure HeapEntry (α : Type) where
  node : ℕ
  element : α

/-- `pomelo_heap_t` and the two pools. -/
structure Heap (α : Type) where
  root : Option ℕ
  size : ℕ
  nodes : ℕ → HeapNode
  nodeUsed : ℕ → Bool
  entries : ℕ → HeapEntry α
  entryUsed : ℕ → Bool

namespace Heap

/-- `pomelo_heap_create`, on whatever the memory of the pools holds. -/
def create (nodes : ℕ → HeapNode) (entries : ℕ → HeapEntry α) : Heap α :=
  ⟨none, 0, nodes, fun _ => false, entries, fun _ => false⟩

/-- A write to the memory of a node. -/
def modifyNode (h : Heap α) (node : ℕ) (f : HeapNode → HeapNode) : Heap α :=
  { h with nodes := Function.update h.nodes node (f (h.nodes node)) }

/-- A write to `entry->node`. -/
def setEntryNode (h : Heap α) (entry node : ℕ) : Heap α :=
  { h with
    entries := Function.update h.entries entry { h.entries entry with node := node } }

def releaseNode (h : Heap α) (node : ℕ) : Heap α :=
  { h with nodeUsed := Function.update h.nodeUsed node false }

def releaseEntry (h : Heap α) (entry : ℕ) : Heap α :=
  { h with entryUsed := Function.update h.entryUsed entry false }

/-- `node->entry`, which must be an entry in use. -/
def entryOf (h : Heap α) (node : ℕ) : Option ℕ :=
  (h.nodes node).entry.filter h.entryUsed

/-- `node->entry->element` -/
def element (h : Heap α) (node : ℕ) : Option α :=
  (h.entryOf node).map fun entry => (h.entries entry).element

/-- `swap_entries` -/
def swapEntries (h : Heap α) (node₁ node₂ : ℕ) : Option (Heap α) := do
  let entry₁ ← h.entryOf node₁
  let entry₂ ← h.entryOf node₂
  let h := h.modifyNode node₁ ({ · with entry := some entry₂ })
  let h := h.modifyNode node₂ ({ · with entry := some entry₁ })
  let h := h.setEntryNode entry₁ node₂
  some (h.setEntryNode entry₂ node₁)

/-- `calc_leading_zeros_mask`: the leading bit of the value. -/
def calcLeadingZerosMask (value : ℕ) : ℕ :=
  if value = 0 then 0 else 2 ^ Nat.log2 value

/-- The child that one bit of a position selects. -/
def child (h : Heap α) (node : ℕ) (pos mask : ℕ) : Option ℕ :=
  if pos &&& mask ≠ 0 then (h.nodes node).right else (h.nodes node).left

/-- The loop of `pomelo_heap_find_insert_position`: the node before the last. -/
def findParent (h : Heap α) (pos mask : ℕ) (current parent : Option ℕ) : Option ℕ :=
  if mask = 0 then parent
  else
    match current with
    | none => none
    | some node => findParent h pos (mask >>> 1) (h.child node pos mask) (some node)
termination_by mask
decreasing_by
  rw [Nat.shiftRight_eq_div_pow]
  omega

/-- `pomelo_heap_find_insert_position` -/
def findInsertPosition (h : Heap α) : Option ℕ :=
  let pos := h.size + 1
  h.findParent pos (calcLeadingZerosMask pos >>> 1) h.root none

/-- The loop of `pomelo_heap_find_last_node`. -/
def findNode (h : Heap α) (pos mask : ℕ) (current : Option ℕ) : Option ℕ :=
  if mask = 0 then current
  else
    match current with
    | none => none
    | some node => findNode h pos (mask >>> 1) (h.child node pos mask)
termination_by mask
decreasing_by
  rw [Nat.shiftRight_eq_div_pow]
  omega

/-- `pomelo_heap_find_last_node` -/
def findLastNode (h : Heap α) : Option ℕ :=
  h.findNode h.size (calcLeadingZerosMask h.size >>> 1) h.root

section Compare

variable (compare : α → α → ℤ)

/-- The loop of `pomelo_heap_heapify_up`. -/
def heapifyUp : ℕ → Heap α → ℕ → Option (Heap α)
  | 0, _, _ => none
  | fuel + 1, h, current =>
      match (h.nodes current).parent with
      | none => some h
      | some parent => do
          let above ← h.element parent
          let below ← h.element current
          if compare above below < 0 then some h
          else heapifyUp fuel (← h.swapEntries current parent) parent

/-- One of the two comparisons of `pomelo_heap_heapify_down`. -/
def smaller (h : Heap α) (choosen : ℕ) : Option ℕ → Option ℕ
  | none => some choosen
  | some child => do
      let below ← h.element child
      let above ← h.element choosen
      some (if compare below above < 0 then child else choosen)

/-- The loop of `pomelo_heap_heapify_down`. -/
def heapifyDown : ℕ → Heap α → ℕ → Option (Heap α)
  | 0, _, _ => none
  | fuel + 1, h, current => do
      let choosen ← h.smaller compare current (h.nodes current).left
      let choosen ← h.smaller compare choosen (h.nodes current).right
      if choosen = current then some h
      else heapifyDown fuel (← h.swapEntries current choosen) choosen

/-- What a push does before it looks for a place: the node and the entry the
pools gave. -/
def acquire (h : Heap α) (node entry : ℕ) (element : α) : Heap α :=
  { h with
    nodes := Function.update h.nodes node ⟨some entry, none, none, none, none, true⟩
    nodeUsed := Function.update h.nodeUsed node true
    entries := Function.update h.entries entry ⟨node, element⟩
    entryUsed := Function.update h.entryUsed entry true }

/-- The link from a parent to its new child, in the first place that is free. -/
def attach (h : Heap α) (parent node : ℕ) : Heap α :=
  (h.modifyNode parent fun p =>
    if p.left = none then { p with left := some node }
    else { p with right := some node }).modifyNode
    node ({ · with parent := some parent })

/-- `pomelo_heap_push_ptr`, where the pools give `node` and `entry`. -/
def push (h : Heap α) (node entry : ℕ) (element : α) : Option (Heap α) :=
  let h := h.acquire node entry element
  match h.root with
  | none => some { h with root := some node, size := h.size + 1 }
  | some _ => do
      let parent ← h.findInsertPosition
      let h ← heapifyUp compare (h.size + 1) (h.attach parent node) node
      some { h with size := h.size + 1 }

/-- The parent of the last node loses it. -/
def detach (h : Heap α) (parent last : ℕ) : Heap α :=
  h.modifyNode parent fun p =>
    if p.left = some last then { p with left := none } else { p with right := none }

/-- The end of a node: its entry and the node itself go back to the pools. -/
def discard (h : Heap α) (node entry : ℕ) : Heap α :=
  ((h.releaseEntry entry).modifyNode node ({ · with entry := none })).releaseNode node

/-- `pomelo_heap_remove_node` -/
def removeNode (h : Heap α) (node : ℕ) : Option (Heap α) :=
  if (h.nodes node).signed = false then none
  else if h.size = 1 then
    if h.root = some node then do
      let entry ← h.entryOf node
      some { h.discard node entry with root := none, size := 0 }
    else none
  else do
    let last ← h.findLastNode
    let h ← h.swapEntries node last
    let parent ← (h.nodes last).parent
    let h := (h.detach parent last).modifyNode last ({ · with signed := false })
    let entry ← h.entryOf last
    let h := { h.discard last entry with size := h.size - 1 }
    heapifyDown compare (h.size + 1) h node

/-- `pomelo_heap_top`: `none` inside is the answer of an empty heap. -/
def top (h : Heap α) : Option (Option α) :=
  if h.size = 0 then some none
  else do
    let root ← h.root
    let element ← h.element root
    some (some element)

/-- `pomelo_heap_pop` -/
def pop (h : Heap α) : Option (Option α × Heap α) :=
  if h.size = 0 then some (none, h)
  else do
    let root ← h.root
    let element ← h.element root
    let h ← removeNode compare h root
    some (some element, h)

/-- `pomelo_heap_remove` -/
def remove (h : Heap α) (entry : ℕ) : Option (Heap α) :=
  removeNode compare h (h.entries entry).node

end Compare

/-- A child goes in front of the queue of `pomelo_heap_clear`. -/
def enqueue (h : Heap α) (child queue : Option ℕ) : Heap α × Option ℕ :=
  match child with
  | none => (h, queue)
  | some node => (h.modifyNode node ({ · with next := queue }), some node)

/-- The loop of `pomelo_heap_clear`. -/
def clearLoop : ℕ → Heap α → Option ℕ → Option (Heap α)
  | 0, _, _ => none
  | _ + 1, h, none => some h
  | fuel + 1, h, some current => do
      let queue := (h.nodes current).next
      let h := h.modifyNode current ({ · with next := none })
      let (h, queue) := h.enqueue (h.nodes current).left queue
      let (h, queue) := h.enqueue (h.nodes current).right queue
      let h := h.modifyNode current ({ · with signed := false })
      let entry ← h.entryOf current
      clearLoop fuel (h.discard current entry) queue

/-- `pomelo_heap_clear` -/
def clear (h : Heap α) : Option (Heap α) :=
  if h.size = 0 then some h
  else do
    let h ← clearLoop (h.size + 1) h h.root
    some { h with root := none, size := 0 }

/-- The node at a position in level order, by the path from the root. -/
def nodeAt (h : Heap α) (i : ℕ) : Option ℕ :=
  if i = 0 then none
  else if i = 1 then h.root
  else do
    let parent ← nodeAt h (i / 2)
    if i % 2 = 1 then (h.nodes parent).right else (h.nodes parent).left
termination_by i
decreasing_by omega

/-- The element at a position in level order. -/
def elementAt (h : Heap α) (i : ℕ) : Option α := (h.nodeAt i).bind h.element

/-- The elements of the tree. -/
def stored (h : Heap α) : Multiset α :=
  (List.range h.size).filterMap fun i => h.elementAt (i + 1)

/-- The nodes that the links lead to. -/
inductive Reachable (h : Heap α) : ℕ → Prop
  | root {node : ℕ} (hroot : h.root = some node) : Reachable h node
  | left {node child : ℕ} (hnode : Reachable h node)
      (hchild : (h.nodes node).left = some child) : Reachable h child
  | right {node child : ℕ} (hnode : Reachable h node)
      (hchild : (h.nodes node).right = some child) : Reachable h child

end Heap

/-- A call of a user of the heap. A push carries the node and the entry the pools
give it. -/
inductive HeapCall (α : Type) where
  | push (node entry : ℕ) (element : α)
  | pop
  | remove (entry : ℕ)
  | clear

/-- A heap with the history of its use: the element behind each handle that was
not removed, all elements pushed and all elements removed. -/
structure HeapLedger (α : Type) where
  heap : Heap α
  handles : ℕ → Option α
  pushed : Multiset α
  removed : Multiset α

namespace HeapLedger

/-- A heap that was just created. -/
def create (nodes : ℕ → HeapNode) (entries : ℕ → HeapEntry α) : HeapLedger α :=
  ⟨Heap.create nodes entries, fun _ => none, 0, 0⟩

/-- What a call of a user relies on: the pools give what is not in use, and only
entries that are still in the heap are removed. -/
def Allowed (l : HeapLedger α) : HeapCall α → Prop
  | .push node entry _ => l.heap.nodeUsed node = false ∧ l.heap.entryUsed entry = false
  | .remove entry => (l.handles entry).isSome
  | _ => True

variable (compare : α → α → ℤ)

/-- One call; `none` if the heap fails. -/
def call (l : HeapLedger α) : HeapCall α → Option (HeapLedger α)
  | .push node entry element => do
      let heap ← l.heap.push compare node entry element
      some ⟨heap, Function.update l.handles entry (some element), element ::ₘ l.pushed, l.removed⟩
  | .pop => do
      let (answer, heap) ← l.heap.pop compare
      match answer with
      | none => some { l with heap := heap }
      | some element => do
          -- The handle that goes is the one at the root
          let root ← l.heap.root
          let entry ← l.heap.entryOf root
          some ⟨heap, Function.update l.handles entry none, l.pushed, element ::ₘ l.removed⟩
  | .remove entry => do
      let element ← l.handles entry
      let heap ← l.heap.remove compare entry
      some ⟨heap, Function.update l.handles entry none, l.pushed, element ::ₘ l.removed⟩
  | .clear => do
      let heap ← l.heap.clear
      some ⟨heap, fun _ => none, l.pushed, l.pushed⟩

/-- The calls of a user one after the other; a failure ends the run. -/
def step (s : Option (HeapLedger α)) (c : HeapCall α) : Option (HeapLedger α) :=
  s.bind fun l => l.call compare c

/-- The call respects what the heap relies on. -/
def Respects (s : Option (HeapLedger α)) (c : HeapCall α) : Prop :=
  ∀ l, s = some l → l.Allowed c

instance decidableAllowed (l : HeapLedger α) : ∀ c, Decidable (l.Allowed c)
  | .push _ _ _ => inferInstanceAs (Decidable (_ ∧ _))
  | .pop => .isTrue trivial
  | .remove entry => inferInstanceAs (Decidable ((l.handles entry).isSome = true))
  | .clear => .isTrue trivial

instance decidableRespects : ∀ (s : Option (HeapLedger α)) c, Decidable (Respects s c)
  | none, _ => .isTrue fun _ h => nomatch h
  | some l, c =>
      decidable_of_iff (l.Allowed c)
        ⟨fun h _ heq => Option.some.inj heq ▸ h, fun h => h l rfl⟩

end HeapLedger

end Utils

end PomeloUdp
