import Mathlib.Data.BitVec
import PomeloUdp.Library.Links
import PomeloUdp.Library.Run

/-!
# The linked list in memory

`LinkedList` is `pomelo_list_t` with the entries that its pool has made: the fields of the
entries are functions of the entry, which is a number. The functions follow `list.c` with
every case of the linking and the unlinking, and the reading of a null pointer sets `fault`.

`Represents l s` says that the links of `l`, its ends and its size are those of the sequence
`s` of entries and elements. `linkedList_run` proves that every run of calls acts as on such a
sequence: an entry stays in it with its element until it is removed, and an iteration meets
every element once, also where it removes the current entries.
-/

namespace PomeloUdp

namespace Utils

open Links Machine

/-- The pool of the entries: the ones that were released, and the next block. -/
structure EntryPool where
  available : List ℕ
  nextEntry : ℕ
  deriving DecidableEq, Repr

namespace EntryPool

/-- `pomelo_pool_acquire`; `memory` says whether the allocator has a block. -/
def acquire (p : EntryPool) (memory : Bool) : Option (ℕ × EntryPool) :=
  match p.available with
  | entry :: available => some (entry, { p with available := available })
  | [] => if memory then some (p.nextEntry, { p with nextEntry := p.nextEntry + 1 }) else none

/-- `pomelo_pool_release`, which does nothing for an entry that is released. -/
def release (p : EntryPool) (entry : ℕ) : EntryPool :=
  if entry ∈ p.available then p else { p with available := entry :: p.available }

/-- Nothing is in the pool twice, and its entries are blocks that were made. -/
structure Sound (p : EntryPool) : Prop where
  nodup : p.available.Nodup
  lt : ∀ entry ∈ p.available, entry < p.nextEntry

/-- The entry is in the hands of a user. -/
def Acquired (p : EntryPool) (entry : ℕ) : Prop :=
  entry ∉ p.available ∧ entry < p.nextEntry

variable {p : EntryPool}

theorem acquire_eq (p : EntryPool) (memory : Bool) :
    p.acquire memory = none ∨ p.acquire memory = p.acquire true := by
  unfold EntryPool.acquire
  cases memory with
  | true => exact .inr rfl
  | false =>
      cases p.available with
      | nil => exact .inl rfl
      | cons entry available => exact .inr rfl

theorem Sound.acquire (h : p.Sound) : ∃ entry p', p.acquire true = some (entry, p') ∧ p'.Sound ∧
    ¬ p.Acquired entry ∧ p'.Acquired entry ∧
      ∀ other, p.Acquired other → p'.Acquired other := by
  unfold EntryPool.acquire
  cases havailable : p.available with
  | nil =>
      exact ⟨p.nextEntry, _, rfl, ⟨List.nodup_nil, fun e he => absurd he List.not_mem_nil⟩,
        fun hacquired => absurd hacquired.2 (lt_irrefl _),
        ⟨List.not_mem_nil, Nat.lt_succ_self _⟩,
        fun other hother => ⟨List.not_mem_nil, hother.2.trans (Nat.lt_succ_self _)⟩⟩
  | cons entry available =>
      obtain ⟨hentry, hnodup⟩ := List.nodup_cons.mp (havailable ▸ h.nodup)
      have hmem : ∀ e, e ∈ available → e ∈ p.available := fun e he =>
        havailable ▸ List.mem_cons_of_mem entry he
      have hhead : entry ∈ p.available := havailable ▸ List.mem_cons_self
      exact ⟨entry, _, rfl, ⟨hnodup, fun e he => h.lt e (hmem e he)⟩,
        fun hacquired => hacquired.1 hhead, ⟨hentry, h.lt entry hhead⟩,
        fun other hother => ⟨fun hmem' => hother.1 (hmem other hmem'), hother.2⟩⟩

theorem Sound.release (h : p.Sound) {entry : ℕ} (hentry : p.Acquired entry) :
    (p.release entry).Sound ∧
      ∀ other, other ≠ entry → p.Acquired other → (p.release entry).Acquired other := by
  rw [EntryPool.release, if_neg hentry.1]
  refine ⟨⟨List.nodup_cons.mpr ⟨hentry.1, h.nodup⟩, fun e he => ?_⟩, fun other hne hother =>
    ⟨fun hmem => ?_, hother.2⟩⟩
  · rcases List.mem_cons.mp he with rfl | he
    · exact hentry.2
    · exact h.lt e he
  · rcases List.mem_cons.mp hmem with rfl | hmem
    · exact hne rfl
    · exact hother.1 hmem

end EntryPool

/-- `pomelo_list_t` and the fields of the entries. -/
structure LinkedList (α : Type*) where
  next : ℕ → Option ℕ
  prev : ℕ → Option ℕ
  element : ℕ → α
  front : Option ℕ
  back : Option ℕ
  size : ℕ
  modCount : BitVec 64
  pool : EntryPool
  /-- A null pointer was read. -/
  fault : Bool

/-- `pomelo_list_iterator_t` without the list. -/
structure EntryIterator where
  current : Option ℕ
  next : Option ℕ
  modCount : BitVec 64
  deriving DecidableEq, Repr

namespace LinkedList

variable {α : Type*}

/-- `pomelo_list_create`; `element` is what the memory of the entries holds. -/
def create (element : ℕ → α) : LinkedList α where
  next _ := none
  prev _ := none
  element := element
  front := none
  back := none
  size := 0
  modCount := 0
  pool := ⟨[], 0⟩
  fault := false

section Private

/-- `entry->next = next`. -/
def setNext (l : LinkedList α) (entry : ℕ) (next : Option ℕ) : LinkedList α :=
  { l with next := Function.update l.next entry next }

/-- `entry->prev = prev`. -/
def setPrev (l : LinkedList α) (entry : ℕ) (prev : Option ℕ) : LinkedList α :=
  { l with prev := Function.update l.prev entry prev }

/-- Writing the element of an entry. -/
def setElement (l : LinkedList α) (entry : ℕ) (a : α) : LinkedList α :=
  { l with element := Function.update l.element entry a }

/-- `list->size++` and `list->mod_count++`. -/
def grown (l : LinkedList α) : LinkedList α :=
  { l with size := l.size + 1, modCount := l.modCount + 1 }

/-- `list->size--` and `list->mod_count++`. -/
def shrunk (l : LinkedList α) : LinkedList α :=
  { l with size := l.size - 1, modCount := l.modCount + 1 }

/-- `pomelo_list_link_back`. -/
def linkBack (l : LinkedList α) (entry : ℕ) : LinkedList α :=
  if l.size = 0 then
    (({ l with front := some entry, back := some entry }.setNext entry none).setPrev entry
      none).grown
  else
    match l.back with
    | none => { l with fault := true }
    | some back =>
        { ((l.setPrev entry (some back)).setNext entry none).setNext back (some entry) with
          back := some entry }.grown

/-- `pomelo_list_append_back`. -/
def appendBack (l : LinkedList α) (memory : Bool) : Option (ℕ × LinkedList α) :=
  match l.pool.acquire memory with
  | none => none
  | some (entry, pool) => some (entry, { l with pool := pool }.linkBack entry)

/-- The part of `pomelo_list_append_front` behind the request for an entry. -/
def linkFront (l : LinkedList α) (entry : ℕ) : LinkedList α :=
  if l.size = 0 then
    (({ l with front := some entry, back := some entry }.setNext entry none).setPrev entry
      none).grown
  else
    match l.front with
    | none => { l with fault := true }
    | some front =>
        { ((l.setNext entry (some front)).setPrev entry none).setPrev front (some entry) with
          front := some entry }.grown

/-- `pomelo_list_append_front`. -/
def appendFront (l : LinkedList α) (memory : Bool) : Option (ℕ × LinkedList α) :=
  match l.pool.acquire memory with
  | none => none
  | some (entry, pool) => some (entry, { l with pool := pool }.linkFront entry)

/-- `pomelo_list_unlink_entry`. -/
def unlinkEntry (l : LinkedList α) (entry : ℕ) : LinkedList α :=
  if some entry = l.front then
    let l := { l with front := l.next entry }
    let l := match l.front with
      | some front => l.setPrev front none
      | none => { l with back := none }
    (l.setNext entry none).shrunk
  else if some entry = l.back then
    let l := { l with back := l.prev entry }
    let l := match l.back with
      | some back => l.setNext back none
      | none => { l with front := none }
    (l.setPrev entry none).shrunk
  else
    match l.prev entry, l.next entry with
    | none, none => l
    | some prev, some next =>
        ((((l.setNext prev (some next)).setPrev next (some prev)).setNext entry none).setPrev
          entry none).shrunk
    | _, _ => { l with fault := true }

/-- `pomelo_list_remove_entry`. -/
def removeEntry (l : LinkedList α) (entry : ℕ) : LinkedList α :=
  let l := l.unlinkEntry entry
  { l with pool := l.pool.release entry }

end Private

section Public

/-- The first loop of `pomelo_list_resize`, with the number of entries that are missing. -/
def grow (zero : α) (memory : Bool) : ℕ → LinkedList α → LinkedList α × Bool
  | 0, l => (l, true)
  | missing + 1, l =>
      match l.appendBack memory with
      | none => (l, false)
      | some (entry, l) => grow zero memory missing (l.setElement entry zero)

/-- The second loop of `pomelo_list_resize`, with the number of entries to remove. -/
def shrink : ℕ → LinkedList α → LinkedList α
  | 0, l => l
  | excess + 1, l =>
      match l.back with
      | none => { l with fault := true }
      | some back => shrink excess (l.removeEntry back)

/-- `pomelo_list_resize`: whether it succeeds. -/
def resize (zero : α) (memory : Bool) (l : LinkedList α) (size : ℕ) : LinkedList α × Bool :=
  let (l, success) := grow zero memory (size - l.size) l
  (shrink (l.size - size) l, success)

/-- `pomelo_list_push_front_p`. -/
def pushFront (l : LinkedList α) (memory : Bool) (a : α) : LinkedList α × Option ℕ :=
  match l.appendFront memory with
  | none => (l, none)
  | some (entry, l) => (l.setElement entry a, some entry)

/-- `pomelo_list_pop_front`. -/
def popFront (l : LinkedList α) : LinkedList α × Option α :=
  match l.front with
  | none => (l, none)
  | some front => (l.removeEntry front, some (l.element front))

/-- `pomelo_list_push_back_ptr`. -/
def pushBack (l : LinkedList α) (memory : Bool) (a : α) : LinkedList α × Option ℕ :=
  match l.appendBack memory with
  | none => (l, none)
  | some (entry, l) => (l.setElement entry a, some entry)

/-- `pomelo_list_pop_back`. -/
def popBack (l : LinkedList α) : LinkedList α × Option α :=
  match l.back with
  | none => (l, none)
  | some back => (l.removeEntry back, some (l.element back))

/-- `pomelo_list_remove`. -/
def remove (l : LinkedList α) (entry : ℕ) : LinkedList α := l.removeEntry entry

/-- The loop of `pomelo_list_clear`. It reads the link of an entry behind its release, where
the memory of the entry is still that of the pool. The loop has no bound; `fuel` counts its
rounds. -/
def releaseFrom (next : ℕ → Option ℕ) : ℕ → Option ℕ → EntryPool → Option EntryPool
  | _, none, pool => some pool
  | 0, some _, _ => none
  | fuel + 1, some entry, pool => releaseFrom next fuel (next entry) (pool.release entry)

/-- `pomelo_list_clear`. -/
def clear (l : LinkedList α) : LinkedList α :=
  match releaseFrom l.next l.size l.front l.pool with
  | none => { l with fault := true }
  | some pool =>
      { l with pool := pool, size := 0, front := none, back := none, modCount := l.modCount + 1 }

end Public

section Iterator

/-- `pomelo_list_iterator_init`. -/
def iteratorInit (l : LinkedList α) : EntryIterator where
  current := none
  next := if l.size = 0 then none else l.front
  modCount := l.modCount

/-- `pomelo_list_iterator_next`, with `none` for the answers `-2` and `-1`. -/
def iteratorNext (l : LinkedList α) (it : EntryIterator) : Option (α × EntryIterator) :=
  if it.modCount ≠ l.modCount then none
  else
    match it.next with
    | none => none
    | some entry => some (l.element entry, { it with current := some entry, next := l.next entry })

/-- `pomelo_list_iterator_remove`. -/
def iteratorRemove (l : LinkedList α) (it : EntryIterator) : LinkedList α × EntryIterator :=
  match it.current with
  | none => (l, it)
  | some entry =>
      if it.modCount ≠ l.modCount then (l, it)
      else
        let l' := l.removeEntry entry
        (l', { it with current := l.prev entry, modCount := l'.modCount })

/-- A loop over an iterator: for every element that it meets, up to the end of the list or of
`removals`, whether it removes the current entry. -/
def iterateFrom (l : LinkedList α) (it : EntryIterator) : List Bool → LinkedList α × List α
  | [] => (l, [])
  | removal :: removals =>
      match l.iteratorNext it with
      | none => (l, [])
      | some (a, it) =>
          let (l, it) := if removal then l.iteratorRemove it else (l, it)
          let (l, met) := l.iterateFrom it removals
          (l, a :: met)

def iterate (l : LinkedList α) (removals : List Bool) : LinkedList α × List α :=
  l.iterateFrom l.iteratorInit removals

end Iterator

/-- The calls of a program. -/
inductive Event (α : Type*) where
  | pushFront (a : α)
  | popFront
  | pushBack (a : α)
  | popBack
  /-- `pomelo_list_remove`. -/
  | remove (entry : ℕ)
  | resize (size : ℕ)
  | clear
  /-- A loop over an iterator. -/
  | iterate (removals : List Bool)

/-- What the calls return. -/
inductive Answer (α : Type*) where
  | entry (entry : Option ℕ)
  | element (a : Option α)
  | met (elements : List α)
  | success (success : Bool)
  | none
  deriving DecidableEq

/-- One call, with an allocator that has memory. -/
def step (zero : α) (l : LinkedList α) : Event α → LinkedList α × Answer α
  | .pushFront a => (l.pushFront true a).map id .entry
  | .popFront => l.popFront.map id .element
  | .pushBack a => (l.pushBack true a).map id .entry
  | .popBack => l.popBack.map id .element
  | .remove entry => (l.remove entry, .none)
  | .resize size => (l.resize zero true size).map id .success
  | .clear => (l.clear, .none)
  | .iterate removals => (l.iterate removals).map id .met

section Specification

/-- The entries from one on, in the order of the links. -/
def entriesFrom (next : ℕ → Option ℕ) : ℕ → Option ℕ → List ℕ
  | fuel + 1, some entry => entry :: entriesFrom next fuel (next entry)
  | _, _ => []

/-- Only entries of the list are removed. -/
def Valid (l : LinkedList α) : Event α → Prop
  | .remove entry => entry ∈ entriesFrom l.next l.size l.front
  | _ => True

instance (l : LinkedList α) (e : Event α) : Decidable (l.Valid e) := by
  cases e <;> unfold Valid <;> infer_instance

/-- What is left of a sequence when the first elements are removed or not. -/
def kept : List (ℕ × α) → List Bool → List (ℕ × α)
  | x :: s, removal :: removals => if removal then kept s removals else x :: kept s removals
  | s, _ => s

/-- The calls on a sequence of entries and elements. -/
inductive Acts (zero : α) (s : List (ℕ × α)) : Event α → Answer α → List (ℕ × α) → Prop
  | pushFront (entry : ℕ) (a : α) (hnew : entry ∉ s.map Prod.fst) :
      Acts zero s (.pushFront a) (.entry (some entry)) ((entry, a) :: s)
  | popFront : Acts zero s .popFront (.element (s.head?.map Prod.snd)) s.tail
  | pushBack (entry : ℕ) (a : α) (hnew : entry ∉ s.map Prod.fst) :
      Acts zero s (.pushBack a) (.entry (some entry)) (s ++ [(entry, a)])
  | popBack : Acts zero s .popBack (.element (s.getLast?.map Prod.snd)) s.dropLast
  | remove (entry : ℕ) : Acts zero s (.remove entry) .none (s.filter fun x => x.1 ≠ entry)
  | resize (size : ℕ) (added : List (ℕ × α))
      (hnew : ((s.take size ++ added).map Prod.fst).Nodup)
      (hadded : added.map Prod.snd = List.replicate (size - s.length) zero) :
      Acts zero s (.resize size) (.success true) (s.take size ++ added)
  | clear : Acts zero s .clear .none []
  | iterate (removals : List Bool) :
      Acts zero s (.iterate removals) (.met ((s.map Prod.snd).take removals.length))
        (kept s removals)

end Specification

/-- `l'` differs from `l` in the links, which are those of the list of `q`, and in the counts
of the size and of the modifications. -/
structure Relinked (l l' : LinkedList α) (size : ℕ) (q : List ℕ) : Prop where
  linked : Linked l'.next l'.prev l'.front l'.back q
  size : l'.size = size
  modCount : l'.modCount = l.modCount + 1
  element : l'.element = l.element
  pool : l'.pool = l.pool
  fault : l'.fault = l.fault

section Unlinking

variable {l : LinkedList α} {entry : ℕ} {before after : List ℕ}

theorem relinked_unlinkEntry_front (h : Linked l.next l.prev l.front l.back (entry :: after)) :
    Relinked l (l.unlinkEntry entry) (l.size - 1) after := by
  have hentry : entry ∉ after := (List.nodup_cons.mp h.nodup).1
  have hfront : l.front = some entry := h.head_eq
  have hpop := h.pop.setNext hentry none
  rw [unlinkEntry, if_pos hfront.symm]
  cases hnext : l.next entry with
  | none =>
      rw [hnext] at hpop
      exact ⟨hpop, rfl, rfl, rfl, rfl, rfl⟩
  | some n =>
      rw [hnext] at hpop
      exact ⟨hpop, rfl, rfl, rfl, rfl, rfl⟩

theorem relinked_unlinkEntry_back (h : Linked l.next l.prev l.front l.back (before ++ [entry]))
    (hne : some entry ≠ l.front) :
    Relinked l (l.unlinkEntry entry) (l.size - 1) before := by
  have hentry : entry ∉ before := fun hentry =>
    (List.nodup_append.mp h.nodup).2.2 entry hentry entry (by simp) rfl
  have hback : l.back = some entry := by rw [h.tail_eq, List.getLast?_concat]
  have hpop := h.popBack.setPrev hentry none
  rw [unlinkEntry, if_neg hne, if_pos hback.symm]
  cases hprev : l.prev entry with
  | none =>
      rw [hprev] at hpop
      exact ⟨hpop, rfl, rfl, rfl, rfl, rfl⟩
  | some p =>
      rw [hprev] at hpop
      exact ⟨hpop, rfl, rfl, rfl, rfl, rfl⟩

theorem relinked_unlinkEntry_middle {p n : ℕ}
    (h : Linked l.next l.prev l.front l.back (before ++ p :: entry :: n :: after)) :
    Relinked l (l.unlinkEntry entry) (l.size - 1) (before ++ p :: n :: after) := by
  have hsplit : before ++ p :: entry :: n :: after = (before ++ [p]) ++ entry :: n :: after := by
    simp
  rw [hsplit] at h
  have hnodup := (List.nodup_cons.mp (List.nodup_middle.mp h.nodup)).1
  obtain ⟨hprev, hnext⟩ := h.neighbours
  rw [List.getLast?_concat] at hprev
  have hfront : some entry ≠ l.front := by
    intro heq
    have hhead : (before ++ [p]).head? = some entry := by
      rw [heq, h.head_eq, List.head?_append]
      cases before <;> rfl
    exact hnodup (List.mem_append_left _ (List.mem_of_head? hhead))
  have hback : some entry ≠ l.back := by
    intro heq
    have hlast : (n :: after).getLast? = some entry := by
      rw [heq, h.tail_eq, List.getLast?_append, List.getLast?_cons_cons]
      simp [List.getLast?_cons]
    exact hnodup (List.mem_append_right _ (List.mem_of_getLast? hlast))
  have herase := h.erase (x := entry) (by simp)
  rw [List.erase_append_right _ fun hmem => hnodup (List.mem_append_left _ hmem),
    List.erase_cons_head] at herase
  have hjoin : before ++ p :: n :: after = (before ++ [p]) ++ n :: after := by simp
  rw [unlinkEntry, if_neg hfront, if_neg hback, hjoin]
  simp only [hprev, hnext, List.head?_cons] at herase ⊢
  exact ⟨(herase.setNext hnodup none).setPrev hnodup none, rfl, rfl, rfl, rfl, rfl⟩

theorem relinked_unlinkEntry (h : Linked l.next l.prev l.front l.back (before ++ entry :: after)) :
    Relinked l (l.unlinkEntry entry) (l.size - 1) (before ++ after) := by
  rcases List.eq_nil_or_concat before with rfl | ⟨init, p, rfl⟩
  · exact relinked_unlinkEntry_front h
  · rw [List.concat_eq_append] at h ⊢
    cases after with
    | nil =>
        rw [List.append_nil]
        refine relinked_unlinkEntry_back h fun hfront => ?_
        have hhead : (init ++ [p]).head? = some entry := by
          rw [hfront, h.head_eq]
          cases init <;> rfl
        exact (List.nodup_append.mp h.nodup).2.2 entry (List.mem_of_head? hhead) entry (by simp) rfl
    | cons n after =>
        rw [List.append_assoc] at h ⊢
        exact relinked_unlinkEntry_middle h

end Unlinking

section Linking

variable {l : LinkedList α} {entry : ℕ} {q : List ℕ}

theorem relinked_linkBack (h : Linked l.next l.prev l.front l.back q) (hsize : l.size = q.length)
    (hentry : entry ∉ q) :
    Relinked l (l.linkBack entry) (l.size + 1) (q ++ [entry]) := by
  have happend := h.append hentry
  rcases List.eq_nil_or_concat q with rfl | ⟨init, last, rfl⟩
  · rw [linkBack, if_pos (by simpa using hsize)]
    rw [h.head_eq, h.tail_eq] at happend
    exact ⟨happend, rfl, rfl, rfl, rfl, rfl⟩
  · rw [List.concat_eq_append] at *
    have hback : l.back = some last := by rw [h.tail_eq, List.getLast?_concat]
    obtain ⟨first, hfront⟩ : ∃ first, l.front = some first := by
      rw [h.head_eq]
      cases init <;> exact ⟨_, rfl⟩
    have hne : entry ≠ last := fun heq => hentry (by simp [heq])
    rw [linkBack, if_neg (by simp [hsize])]
    simp only [hback]
    rw [hback, hfront, Option.elim_some, Option.some_or, ← hfront,
      Function.update_comm hne.symm] at happend
    exact ⟨happend, rfl, rfl, rfl, rfl, rfl⟩

theorem relinked_linkFront (h : Linked l.next l.prev l.front l.back q) (hsize : l.size = q.length)
    (hentry : entry ∉ q) :
    Relinked l (l.linkFront entry) (l.size + 1) (entry :: q) := by
  have hprepend := h.prepend hentry
  cases q with
  | nil =>
      rw [linkFront, if_pos (by simpa using hsize)]
      rw [h.head_eq, h.tail_eq] at hprepend
      exact ⟨hprepend, rfl, rfl, rfl, rfl, rfl⟩
  | cons first q =>
      have hfront : l.front = some first := h.head_eq
      obtain ⟨last, hback⟩ : ∃ last, l.back = some last := by
        rw [h.tail_eq, List.getLast?_cons]
        exact ⟨_, rfl⟩
      have hne : entry ≠ first := fun heq => hentry (by simp [heq])
      rw [linkFront, if_neg (by simp [hsize])]
      simp only [hfront]
      rw [hfront, hback, Option.elim_some, Option.some_or, ← hback,
        Function.update_comm hne.symm] at hprepend
      exact ⟨hprepend, rfl, rfl, rfl, rfl, rfl⟩

end Linking

/-- `l` is the sequence `s` of entries with their elements. -/
structure Represents (l : LinkedList α) (s : List (ℕ × α)) : Prop where
  linked : Linked l.next l.prev l.front l.back (s.map Prod.fst)
  size : l.size = s.length
  element : ∀ x ∈ s, l.element x.1 = x.2
  fault : l.fault = false

/-- The entries of the list are not in the pool. -/
structure Held (l : LinkedList α) (s : List (ℕ × α)) : Prop where
  represents : Represents l s
  sound : l.pool.Sound
  acquired : ∀ x ∈ s, l.pool.Acquired x.1

section Held

variable {l : LinkedList α} {s s₁ s₂ : List (ℕ × α)} {a : α}

theorem Held.linked (s₁ s₂ : List (ℕ × α)) {l' : LinkedList α} {entry : ℕ} {pool : EntryPool}
    (h : Held l (s₁ ++ s₂))
    (hsound : pool.Sound) (hnew : ¬ l.pool.Acquired entry) (hacquired : pool.Acquired entry)
    (hkept : ∀ other, l.pool.Acquired other → pool.Acquired other)
    (hrelinked : Relinked { l with pool := pool } l' (l.size + 1)
      (s₁.map Prod.fst ++ entry :: s₂.map Prod.fst)) :
    Held (l'.setElement entry a) (s₁ ++ (entry, a) :: s₂) where
  represents := {
    linked := by
      rw [List.map_append, List.map_cons]
      exact hrelinked.linked
    size := by
      have := h.represents.size
      have hsize : l'.size = l.size + 1 := hrelinked.size
      simp only [List.length_append, List.length_cons] at this ⊢
      exact hsize.trans (by omega)
    element := by
      have hold : ∀ x ∈ s₁ ++ s₂, (l'.setElement entry a).element x.1 = x.2 := by
        intro x hx
        have hne : x.1 ≠ entry := fun heq => hnew (heq ▸ h.acquired x hx)
        change Function.update l'.element entry a x.1 = x.2
        rw [Function.update_of_ne hne, hrelinked.element]
        exact h.represents.element x hx
      intro x hx
      rcases List.mem_append.mp hx with hx | hx
      · exact hold x (List.mem_append_left _ hx)
      · rcases List.mem_cons.mp hx with rfl | hx
        · exact Function.update_self ..
        · exact hold x (List.mem_append_right _ hx)
    fault := hrelinked.fault.trans h.represents.fault }
  sound := by
    change l'.pool.Sound
    rw [hrelinked.pool]
    exact hsound
  acquired x hx := by
    change l'.pool.Acquired x.1
    rw [hrelinked.pool]
    rcases List.mem_append.mp hx with hx | hx
    · exact hkept _ (h.acquired x (List.mem_append_left _ hx))
    · rcases List.mem_cons.mp hx with rfl | hx
      · exact hacquired
      · exact hkept _ (h.acquired x (List.mem_append_right _ hx))

theorem Held.appendBack (h : Held l s) (a : α) : ∃ entry l', l.appendBack true = some (entry, l') ∧
    entry ∉ s.map Prod.fst ∧ Held (l'.setElement entry a) (s ++ [(entry, a)]) := by
  obtain ⟨entry, pool, hacquire, hsound, hnew, hacquired, hkept⟩ := h.sound.acquire
  have hentry : entry ∉ s.map Prod.fst := by
    intro hmem
    obtain ⟨x, hx, rfl⟩ := List.mem_map.mp hmem
    exact hnew (h.acquired x hx)
  unfold LinkedList.appendBack
  rw [hacquire]
  refine ⟨entry, _, rfl, hentry, ?_⟩
  have hrelinked := relinked_linkBack (l := { l with pool := pool }) h.represents.linked
    (by rw [List.length_map]; exact h.represents.size) hentry
  exact Held.linked s [] (by rwa [List.append_nil]) hsound hnew hacquired hkept hrelinked

theorem Held.appendFront (h : Held l s) (a : α) :
    ∃ entry l', l.appendFront true = some (entry, l') ∧
    entry ∉ s.map Prod.fst ∧ Held (l'.setElement entry a) ((entry, a) :: s) := by
  obtain ⟨entry, pool, hacquire, hsound, hnew, hacquired, hkept⟩ := h.sound.acquire
  have hentry : entry ∉ s.map Prod.fst := by
    intro hmem
    obtain ⟨x, hx, rfl⟩ := List.mem_map.mp hmem
    exact hnew (h.acquired x hx)
  unfold LinkedList.appendFront
  rw [hacquire]
  refine ⟨entry, _, rfl, hentry, ?_⟩
  have hrelinked := relinked_linkFront (l := { l with pool := pool }) h.represents.linked
    (by rw [List.length_map]; exact h.represents.size) hentry
  exact Held.linked [] s h hsound hnew hacquired hkept hrelinked

theorem Held.removeEntry (s₁ s₂ : List (ℕ × α)) {x : ℕ × α} (h : Held l (s₁ ++ x :: s₂)) :
    Held (l.removeEntry x.1) (s₁ ++ s₂) ∧ (l.removeEntry x.1).element = l.element := by
  have hlinked := h.represents.linked
  rw [List.map_append, List.map_cons] at hlinked
  have hrelinked := relinked_unlinkEntry hlinked
  have hx : x.1 ∉ s₁.map Prod.fst ++ s₂.map Prod.fst :=
    (List.nodup_cons.mp (List.nodup_middle.mp hlinked.nodup)).1
  obtain ⟨hsound, hkept⟩ := h.sound.release (h.acquired x (by simp))
  have hmem : ∀ y ∈ s₁ ++ s₂, y ∈ s₁ ++ x :: s₂ := by simp +contextual [or_imp]
  have hpool : (l.removeEntry x.1).pool = l.pool.release x.1 := by
    change (l.unlinkEntry x.1).pool.release x.1 = _
    rw [hrelinked.pool]
  refine ⟨⟨⟨?_, ?_, fun y hy => ?_, hrelinked.fault.trans h.represents.fault⟩, ?_, fun y hy => ?_⟩,
    hrelinked.element⟩
  · rw [List.map_append]
    exact hrelinked.linked
  · have := h.represents.size
    have hsize : (l.removeEntry x.1).size = l.size - 1 := hrelinked.size
    simp only [List.length_append, List.length_cons] at this ⊢
    omega
  · exact (congrFun hrelinked.element y.1).trans (h.represents.element y (hmem y hy))
  · rw [hpool]
    exact hsound
  · rw [hpool]
    refine hkept _ (fun heq => hx ?_) (h.acquired y (hmem y hy))
    rw [← heq, ← List.map_append]
    exact List.mem_map_of_mem hy

end Held

section Steps

variable {l : LinkedList α} {s s₁ s₂ : List (ℕ × α)} {a : α}

theorem held_create (element : ℕ → α) : Held (create element) [] where
  represents := ⟨⟨List.nodup_nil, rfl, rfl, trivial⟩, rfl, nofun, rfl⟩
  sound := ⟨List.nodup_nil, nofun⟩
  acquired := nofun

theorem Held.nodup (h : Held l s) : (s.map Prod.fst).Nodup := h.represents.linked.nodup

theorem Held.setElement (h : Held l s) {k : ℕ} {x : ℕ × α} (hx : s[k]? = some x) (a : α) :
    Held (l.setElement x.1 a) (s.set k (x.1, a)) := by
  have hfst : (s.set k (x.1, a)).map Prod.fst = s.map Prod.fst := by
    refine List.ext_getElem? fun j => ?_
    rw [List.getElem?_map, List.getElem?_map, List.getElem?_set']
    split
    next hj =>
      rw [← hj, hx]
      rfl
    next => rfl
  have hmem : ∀ y ∈ s.set k (x.1, a), l.pool.Acquired y.1 := by
    intro y hy
    rcases List.mem_or_eq_of_mem_set hy with hy | rfl
    · exact h.acquired y hy
    · exact h.acquired x (List.mem_of_getElem? hx)
  refine ⟨⟨?_, ?_, ?_, h.represents.fault⟩, h.sound, hmem⟩
  · rw [hfst]
    exact h.represents.linked
  · rw [List.length_set]
    exact h.represents.size
  · intro y hy
    obtain ⟨j, hj⟩ := List.mem_iff_getElem?.mp hy
    rw [List.getElem?_set'] at hj
    split at hj
    next hkj =>
      rw [← hkj, hx] at hj
      rw [← Option.some.inj hj]
      exact Function.update_self ..
    next hkj =>
      have hne : y.1 ≠ x.1 := by
        intro heq
        refine hkj ((List.getElem?_inj ?_ h.nodup).mp ?_)
        · rw [List.length_map]
          exact (List.getElem?_eq_some_iff.mp hx).1
        · rw [List.getElem?_map, List.getElem?_map, hx, hj]
          exact congrArg some heq.symm
      change Function.update l.element x.1 a y.1 = y.2
      rw [Function.update_of_ne hne]
      exact h.represents.element y (List.mem_of_getElem? hj)

/-- The first loop of `pomelo_list_resize`. -/
theorem Held.grow (h : Held l s) (zero : α) (missing : ℕ) :
    ∃ added, Held (LinkedList.grow zero true missing l).1 (s ++ added) ∧
      (LinkedList.grow zero true missing l).2 = true ∧
      added.map Prod.snd = List.replicate missing zero := by
  induction missing generalizing l s with
  | zero => exact ⟨[], by rwa [List.append_nil], rfl, rfl⟩
  | succ missing ih =>
      obtain ⟨entry, l', happend, -, hheld⟩ := h.appendBack zero
      obtain ⟨added, hgrown, hsuccess, hadded⟩ := ih hheld
      rw [LinkedList.grow, happend]
      refine ⟨(entry, zero) :: added, ?_, hsuccess, ?_⟩
      · simpa using hgrown
      · rw [List.map_cons, hadded, List.replicate_succ]

theorem Held.shrink (h : Held l (s₁ ++ s₂)) : Held (LinkedList.shrink s₂.length l) s₁ := by
  induction s₂ using List.reverseRecOn generalizing l with
  | nil =>
      rw [List.append_nil] at h
      exact h
  | append_singleton s₂ x ih =>
      have hback : l.back = some x.1 := by
        rw [h.represents.linked.tail_eq]
        simp
      rw [List.length_append, List.length_singleton, LinkedList.shrink, hback]
      rw [← List.append_assoc] at h
      have hremove := (h.removeEntry (s₁ ++ s₂) []).1
      exact ih (by simpa using hremove)

/-- `pomelo_list_resize` cuts the list or adds elements that are zero. -/
theorem Held.resize (h : Held l s) (zero : α) (size : ℕ) :
    ∃ added, Held (l.resize zero true size).1 (s.take size ++ added) ∧
      (l.resize zero true size).2 = true ∧
      added.map Prod.snd = List.replicate (size - s.length) zero := by
  obtain ⟨added, hgrown, hsuccess, hadded⟩ := h.grow zero (size - l.size)
  rw [h.represents.size] at hgrown hadded hsuccess
  have hlength := congrArg List.length hadded
  rw [List.length_map, List.length_replicate] at hlength
  refine ⟨added, ?_, ?_, hadded⟩
  · change Held
      (LinkedList.shrink ((LinkedList.grow zero true (size - l.size) l).1.size - size) _) _
    rw [h.represents.size, hgrown.represents.size, List.length_append]
    rcases Nat.le_total size s.length with hle | hle
    · obtain rfl := List.length_eq_zero_iff.mp (hlength.trans (Nat.sub_eq_zero_of_le hle))
      rw [List.append_nil] at hgrown ⊢
      have hexcess : s.length + ([] : List (ℕ × α)).length - size = (s.drop size).length := by
        simp
      rw [hexcess]
      exact Held.shrink (by rwa [List.take_append_drop])
    · rw [List.take_of_length_le hle]
      have hexcess : s.length + added.length - size = ([] : List (ℕ × α)).length := by
        rw [List.length_nil]
        omega
      rw [hexcess]
      exact Held.shrink (by rwa [List.append_nil])
  · change (LinkedList.grow zero true (size - l.size) l).2 = true
    rw [h.represents.size]
    exact hsuccess

theorem Held.entriesFrom_eq (h : Held l s) :
    entriesFrom l.next l.size l.front = s.map Prod.fst := by
  have : ∀ (q : List ℕ) (p : Option ℕ), Segment l.next l.prev p q none →
      entriesFrom l.next q.length q.head? = q := by
    intro q
    induction q with
    | nil => exact fun _ _ => rfl
    | cons entry q ih =>
        intro p hq
        obtain ⟨-, hnext, hq⟩ := hq
        rw [List.length_cons, List.head?_cons, entriesFrom, hnext, Option.or_none, ih _ hq]
  rw [h.represents.size, h.represents.linked.head_eq, ← List.length_map Prod.fst]
  exact this _ none h.represents.linked.segment

/-- The loop of `pomelo_list_clear` releases the entries of the list. -/
theorem releaseFrom_eq {next prev : ℕ → Option ℕ} {q : List ℕ} {p : Option ℕ}
    {pool : EntryPool} (hq : Segment next prev p q none) (hnodup : q.Nodup) (hsound : pool.Sound)
    (hacquired : ∀ entry ∈ q, pool.Acquired entry) :
    ∃ pool', releaseFrom next q.length q.head? pool = some pool' ∧ pool'.Sound := by
  induction q generalizing p pool with
  | nil => exact ⟨pool, rfl, hsound⟩
  | cons entry q ih =>
      obtain ⟨-, hnext, hq⟩ := hq
      obtain ⟨hentry, hnodup⟩ := List.nodup_cons.mp hnodup
      obtain ⟨hsound', hkept⟩ := hsound.release (hacquired entry List.mem_cons_self)
      rw [List.length_cons, List.head?_cons, releaseFrom, hnext, Option.or_none]
      exact ih hq hnodup hsound' fun other hother =>
        hkept other (ne_of_mem_of_not_mem hother hentry)
          (hacquired other (List.mem_cons_of_mem entry hother))

theorem Held.clear (h : Held l s) : Held l.clear [] := by
  obtain ⟨pool, hrelease, hsound⟩ := releaseFrom_eq h.represents.linked.segment h.nodup h.sound
    fun entry hentry => by
      obtain ⟨x, hx, rfl⟩ := List.mem_map.mp hentry
      exact h.acquired x hx
  rw [List.length_map, ← h.represents.size, ← h.represents.linked.head_eq] at hrelease
  unfold LinkedList.clear
  rw [hrelease]
  exact ⟨⟨⟨List.nodup_nil, rfl, rfl, trivial⟩, rfl, nofun, h.represents.fault⟩, hsound, nofun⟩

/-- The loop over an iterator: `s₁` are the entries that it has passed and left, and the
iterator keeps the next entry across the removal of the current one. -/
theorem Held.iterateFrom (s₁ : List (ℕ × α)) {it : EntryIterator} (h : Held l (s₁ ++ s₂))
    (hmod : it.modCount = l.modCount) (hnext : it.next = s₂.head?.map Prod.fst)
    (removals : List Bool) :
    Held (l.iterateFrom it removals).1 (s₁ ++ kept s₂ removals) ∧
      (l.iterateFrom it removals).2 = (s₂.map Prod.snd).take removals.length := by
  induction removals generalizing l it s₁ s₂ with
  | nil =>
      refine ⟨?_, rfl⟩
      cases s₂ <;> exact h
  | cons removal removals ih =>
      cases s₂ with
      | nil =>
          rw [LinkedList.iterateFrom, iteratorNext, if_neg (not_not.mpr hmod), hnext]
          exact ⟨h, rfl⟩
      | cons x s₂ =>
          have hlinked := h.represents.linked
          rw [List.map_append, List.map_cons] at hlinked
          have hbehind : l.next x.1 = s₂.head?.map Prod.fst := by
            rw [hlinked.neighbours.2, List.head?_map]
          have helement : l.element x.1 = x.2 := h.represents.element x (by simp)
          rw [LinkedList.iterateFrom, iteratorNext, if_neg (not_not.mpr hmod), hnext]
          simp only [List.head?_cons, Option.map_some, List.map_cons, List.length_cons,
            List.take_succ_cons, helement]
          cases removal with
          | false =>
              rw [← List.singleton_append, ← List.append_assoc] at h
              obtain ⟨hheld, hmet⟩ := @ih l s₂ (s₁ ++ [x])
                { it with current := some x.1, next := l.next x.1 } h hmod hbehind
              exact ⟨by simpa [kept] using hheld, congrArg _ hmet⟩
          | true =>
              simp only [if_true, iteratorRemove, hmod, ne_eq, not_true_eq_false, if_false]
              obtain ⟨hheld, hmet⟩ := @ih (l.removeEntry x.1) s₂ s₁
                ⟨l.prev x.1, l.next x.1, (l.removeEntry x.1).modCount⟩ (h.removeEntry s₁ s₂).1 rfl
                hbehind
              exact ⟨by simpa [kept] using hheld, congrArg _ hmet⟩

theorem Held.iterate (h : Held l s) (removals : List Bool) :
    Held (l.iterate removals).1 (kept s removals) ∧
      (l.iterate removals).2 = (s.map Prod.snd).take removals.length := by
  refine Held.iterateFrom [] h rfl ?_ removals
  rw [iteratorInit, h.represents.size, h.represents.linked.head_eq, List.head?_map]
  cases s <;> rfl

theorem Held.pushFront (h : Held l s) (a : α) : ∃ entry l', l.pushFront true a = (l', some entry) ∧
    entry ∉ s.map Prod.fst ∧ Held l' ((entry, a) :: s) := by
  obtain ⟨entry, l', happend, hnew, hheld⟩ := h.appendFront a
  rw [LinkedList.pushFront, happend]
  exact ⟨entry, _, rfl, hnew, hheld⟩

theorem Held.pushBack (h : Held l s) (a : α) : ∃ entry l', l.pushBack true a = (l', some entry) ∧
    entry ∉ s.map Prod.fst ∧ Held l' (s ++ [(entry, a)]) := by
  obtain ⟨entry, l', happend, hnew, hheld⟩ := h.appendBack a
  rw [LinkedList.pushBack, happend]
  exact ⟨entry, _, rfl, hnew, hheld⟩

theorem pushBack_eq (l : LinkedList α) (memory : Bool) (a : α) :
    l.pushBack memory a = (l, none) ∨ l.pushBack memory a = l.pushBack true a := by
  unfold LinkedList.pushBack LinkedList.appendBack
  rcases l.pool.acquire_eq memory with hnone | heq
  · rw [hnone]
    exact .inl rfl
  · rw [heq]
    exact .inr rfl

theorem Held.popFront_nil (h : Held l []) : l.popFront = (l, none) := by
  have hfront : l.front = none := h.represents.linked.head_eq
  rw [LinkedList.popFront, hfront]

theorem Held.popFront_cons {x : ℕ × α} (h : Held l (x :: s)) :
    ∃ l', l.popFront = (l', some x.2) ∧ Held l' s := by
  have hfront : l.front = some x.1 := h.represents.linked.head_eq
  have helement : l.element x.1 = x.2 := h.represents.element x List.mem_cons_self
  rw [LinkedList.popFront, hfront, ← helement]
  exact ⟨_, rfl, (h.removeEntry [] s).1⟩

theorem Held.popBack_nil (h : Held l []) : l.popBack = (l, none) := by
  have hback : l.back = none := h.represents.linked.tail_eq
  rw [LinkedList.popBack, hback]

theorem Held.popBack_concat {x : ℕ × α} (h : Held l (s ++ [x])) :
    ∃ l', l.popBack = (l', some x.2) ∧ Held l' s := by
  have hback : l.back = some x.1 := by
    rw [h.represents.linked.tail_eq]
    simp
  have helement : l.element x.1 = x.2 := h.represents.element x (by simp)
  have hheld := (h.removeEntry s []).1
  rw [List.append_nil] at hheld
  rw [LinkedList.popBack, hback, ← helement]
  exact ⟨_, rfl, hheld⟩

theorem Held.remove {x : ℕ × α} (h : Held l s) (hx : x ∈ s) :
    Held (l.remove x.1) (s.filter fun y => y.1 ≠ x.1) := by
  obtain ⟨s₁, s₂, rfl⟩ := List.append_of_mem hx
  have hnodup := h.nodup
  rw [List.map_append, List.map_cons] at hnodup
  have hnotMem := (List.nodup_cons.mp (List.nodup_middle.mp hnodup)).1
  rw [← List.map_append] at hnotMem
  have hothers : ∀ y ∈ s₁ ++ s₂, (fun y : ℕ × α => decide (y.1 ≠ x.1)) y = true := by
    intro y hy
    exact decide_eq_true fun heq => hnotMem (heq ▸ List.mem_map_of_mem hy)
  have hfilter : (s₁ ++ x :: s₂).filter (fun y => y.1 ≠ x.1) = s₁ ++ s₂ := by
    rw [List.filter_append, List.filter_cons_of_neg (by simp), ← List.filter_append,
      List.filter_eq_self.mpr hothers]
  rw [hfilter]
  exact (h.removeEntry s₁ s₂).1

theorem Held.step (h : Held l s) (zero : α) (e : Event α) (hvalid : l.Valid e) :
    ∃ s', Acts zero s e (l.step zero e).2 s' ∧ Held (l.step zero e).1 s' := by
  cases e with
  | pushFront a =>
      obtain ⟨entry, l', hpush, hnew, hheld⟩ := h.pushFront a
      simp only [LinkedList.step, hpush]
      exact ⟨_, .pushFront entry a hnew, hheld⟩
  | popFront =>
      cases s with
      | nil =>
          simp only [LinkedList.step, h.popFront_nil]
          exact ⟨_, .popFront, h⟩
      | cons x s =>
          obtain ⟨l', hpop, hheld⟩ := h.popFront_cons
          simp only [LinkedList.step, hpop]
          exact ⟨_, .popFront, hheld⟩
  | pushBack a =>
      obtain ⟨entry, l', hpush, hnew, hheld⟩ := h.pushBack a
      simp only [LinkedList.step, hpush]
      exact ⟨_, .pushBack entry a hnew, hheld⟩
  | popBack =>
      rcases List.eq_nil_or_concat s with rfl | ⟨init, x, rfl⟩
      · simp only [LinkedList.step, h.popBack_nil]
        exact ⟨_, .popBack, h⟩
      · rw [List.concat_eq_append] at h ⊢
        obtain ⟨l', hpop, hheld⟩ := h.popBack_concat
        have hact : Acts zero (init ++ [x]) .popBack _ _ := .popBack
        rw [List.getLast?_concat, List.dropLast_concat] at hact
        simp only [LinkedList.step, hpop]
        exact ⟨init, hact, hheld⟩
  | remove entry =>
      change entry ∈ LinkedList.entriesFrom l.next l.size l.front at hvalid
      rw [h.entriesFrom_eq] at hvalid
      obtain ⟨x, hx, rfl⟩ := List.mem_map.mp hvalid
      exact ⟨_, .remove x.1, h.remove hx⟩
  | resize size =>
      obtain ⟨added, hheld, hsuccess, hadded⟩ := h.resize zero size
      refine ⟨_, ?_, hheld⟩
      simp only [LinkedList.step, Prod.map, hsuccess]
      exact .resize size added hheld.nodup hadded
  | clear => exact ⟨[], .clear, h.clear⟩
  | iterate removals =>
      obtain ⟨hheld, hmet⟩ := h.iterate removals
      refine ⟨_, ?_, hheld⟩
      simp only [LinkedList.step, Prod.map, hmet]
      exact .iterate removals

end Steps

/-- In every run the list acts as a sequence of entries and elements, and represents it. -/
theorem linkedList_run (zero : α) (element : ℕ → α) (events : List (Event α))
    (hvalid : Along (Machine.next (step zero)) Valid (create element) events) :
    ∃ s, Explains (Acts zero) [] events (outputs (step zero) (create element) events) s ∧
      Represents (run (Machine.next (step zero)) (create element) events) s := by
  obtain ⟨s, hexplains, hheld⟩ :=
    refinement_run (fun _ _ e h he => Held.step h zero e he) (held_create element) hvalid
  exact ⟨s, hexplains, hheld.represents⟩

/-- The middle one of three entries is removed and its memory used again for an entry at the
front; an iteration removes the second of the three elements. -/
def reusing : List (Event ℕ) :=
  [.pushBack 1, .pushBack 2, .pushBack 3, .remove 1, .pushFront 4, .iterate [false, true, false],
    .resize 4, .popBack, .clear]

theorem linkedList_run_reusing :
    ∃ s, Explains (Acts 0) [] reusing (outputs (step 0) (create fun _ => 0) reusing) s ∧
      Represents (run (Machine.next (step 0)) (create fun _ => 0) reusing) s :=
  linkedList_run 0 (fun _ => 0) reusing (by decide)

example : outputs (step 0) (create fun _ => 0) (reusing.take 6) =
    [.entry (some 0), .entry (some 1), .entry (some 2), .none, .entry (some 1),
      .met [4, 1, 3]] := by
  decide

end LinkedList

end Utils

end PomeloUdp
