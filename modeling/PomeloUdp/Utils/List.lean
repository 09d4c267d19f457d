import Mathlib.Data.List.Basic
import Mathlib.Data.List.Lookmap
import Mathlib.Tactic.TypeStar

/-!
# The linked list of the utilities

`PomeloList` is `pomelo_list_t` seen as the sequence of its elements together
with the modification count that every structural change increments. An
iterator is a zipper over that sequence: the elements it has passed, the last of
which is `current`, and the elements still reachable through `next`.

The build modelled is the one where `assert` is compiled out: an iterator whose
modification count is out of date then answers `-2` from
`pomelo_list_iterator_next`, and a caller that loops while the answer is `0`
stops there. A debug build aborts at the same place.
-/

namespace PomeloUdp

namespace Utils

/-- `pomelo_list_t`: the elements from `front` to `back` and `mod_count`. -/
structure PomeloList (α : Type*) where
  elements : List α
  modCount : ℕ
  deriving DecidableEq, Repr

namespace PomeloList

variable {α : Type*}

/-- A list as `pomelo_list_create` returns it. -/
def create : PomeloList α := ⟨[], 0⟩

@[simp] theorem create_elements : (create : PomeloList α).elements = [] := rfl

/-- `pomelo_list_push_back`. -/
def pushBack (l : PomeloList α) (a : α) : PomeloList α :=
  ⟨l.elements ++ [a], l.modCount + 1⟩

@[simp] theorem pushBack_elements (l : PomeloList α) (a : α) :
    (l.pushBack a).elements = l.elements ++ [a] := rfl

/-- `pomelo_list_remove` of the first entry whose element satisfies `p`, the one
a search from `front` returns. -/
def removeFirst (l : PomeloList α) (p : α → Bool) : PomeloList α :=
  ⟨l.elements.eraseP p, l.modCount + 1⟩

@[simp] theorem removeFirst_elements (l : PomeloList α) (p : α → Bool) :
    (l.removeFirst p).elements = l.elements.eraseP p := rfl

/-- Writing through the element pointer of the first entry whose element
satisfies `p`: the structure of the list, and with it the modification count,
does not change. -/
def writeFirst (l : PomeloList α) (p : α → Bool) (g : α → α) : PomeloList α :=
  { l with elements := l.elements.replaceF (fun a => if p a then some (g a) else none) }

@[simp] theorem writeFirst_elements (l : PomeloList α) (p : α → Bool) (g : α → α) :
    (l.writeFirst p g).elements =
      l.elements.replaceF (fun a => if p a then some (g a) else none) := rfl

/-- Popping the front until the list is empty, one count for every element. -/
def popAll (l : PomeloList α) : PomeloList α :=
  ⟨[], l.modCount + l.elements.length⟩

@[simp] theorem popAll_elements (l : PomeloList α) : l.popAll.elements = [] := rfl

end PomeloList

/-- `pomelo_list_iterator_t` as a zipper; `current` is the last element of
`passed`. -/
structure ListIterator (α : Type*) where
  passed : List α
  next : List α
  modCount : ℕ

namespace ListIterator

variable {α : Type*}

/-- `pomelo_list_iterator_init`. -/
def init (l : PomeloList α) : ListIterator α := ⟨[], l.elements, l.modCount⟩

/-- `pomelo_list_iterator_next`: `none` stands for the answers `-2` (the list
was modified) and `-1` (no more elements). -/
def advance (it : ListIterator α) (l : PomeloList α) : Option (α × ListIterator α) :=
  if it.modCount ≠ l.modCount then none
  else
    match it.next with
    | [] => none
    | a :: next => some (a, { it with passed := it.passed ++ [a], next := next })

/-- `pomelo_list_iterator_transfer` from the iterated list to another one. Both
lists count the change; unlike `pomelo_list_iterator_remove` the iterator's own
count is not brought up to date. -/
def transfer (it : ListIterator α) (l target : PomeloList α) :
    ListIterator α × PomeloList α × PomeloList α :=
  match it.passed.getLast? with
  | none => (it, l, target)
  | some current =>
    ({ it with passed := it.passed.dropLast },
      ⟨it.passed.dropLast ++ it.next, l.modCount + 1⟩,
      target.pushBack current)

theorem advance_of_stale {it : ListIterator α} {l : PomeloList α}
    (h : it.modCount ≠ l.modCount) : it.advance l = none := by
  simp [advance, h]

theorem advance_nil {it : ListIterator α} {l : PomeloList α} (h : it.next = []) :
    it.advance l = none := by
  simp [advance, h]

theorem advance_cons {it : ListIterator α} {l : PomeloList α} {a : α} {next : List α}
    (hmod : it.modCount = l.modCount) (h : it.next = a :: next) :
    it.advance l =
      some (a, { it with passed := it.passed ++ [a], next := next }) := by
  simp [advance, hmod, h]

end ListIterator

end Utils

end PomeloUdp
