import PomeloUdp.Utils.Pool
import PomeloUdp.Utils.PoolLists

/-!
# The accounts of the pools

`PoolMemory` is a root pool in memory, with the links of its elements, and the shared pools made
from it. The callbacks of the user succeed here, so they change nothing in the pools; what the
pools do where one fails is in `Pools`. The elements that users have are in `handed`, which no
function of the source has: an element is released once since a user gives back what it has.

`Accounted` says that the two lists are well formed and within their limits, and that every element
is in one place: in the hands of the running call, with a user, in the list of available elements,
or in the array of one shared pool. Every function of the source moves elements from one place to
another, and `poolAccounts_run` follows for every run.
-/

namespace PomeloUdp

namespace Utils

open Machine

/-- `pomelo_pool_shared_t`; the length of the array is `index`. -/
structure SharedArray where
  buffers : ℕ
  elements : List ℕ

/-- `pomelo_pool_root_t` with the flag `POMELO_POOL_ELEMENT_ACQUIRED` of the elements, the shared
pools made from it, and the elements that users have. -/
structure PoolMemory where
  available : ElementList
  allocated : ElementList
  nextElement : ℕ
  acquired : ℕ → Bool
  shared : List SharedArray
  handed : List ℕ

/-- The calls of the users; `blocks` is how many blocks the allocator has. -/
inductive PoolUse where
  | rootAcquire (blocks : ℕ)
  | rootRelease (element : ℕ)
  | sharedCreate (buffers : ℕ)
  | sharedAcquire (pool blocks : ℕ)
  | sharedRelease (pool element : ℕ)

namespace PoolMemory

/-- A root pool. -/
def create : PoolMemory where
  available := .empty
  allocated := .empty
  nextElement := 0
  acquired _ := false
  shared := []
  handed := []

section Elements

variable (options : PoolOptions)

/-- `pomelo_pool_acquire_elements`. -/
def acquireElements (s : PoolMemory) (nelements : ℕ) : PoolMemory × List ℕ :=
  let elements := ElementList.collect s.available.next nelements s.available.head
  ({ s with available := s.available.unlink elements }, elements)

/-- `pomelo_pool_allocate_elements`. -/
def allocateElements (s : PoolMemory) (nelements blocks : ℕ) : PoolMemory × List ℕ :=
  let cap :=
    if 0 < options.allocatedMax ∧ options.allocatedMax < s.allocated.size + nelements then
      options.allocatedMax - s.allocated.size
    else nelements
  let elements := List.range' s.nextElement (min cap blocks)
  ({ s with
      available := s.available.zero elements
      allocated := (s.allocated.zero elements).link elements
      nextElement := s.nextElement + min cap blocks
      acquired := fun element => if element ∈ elements then false else s.acquired element },
    elements)

/-- How many elements the list of available ones takes. -/
def nrelease (s : PoolMemory) (nelements : ℕ) : ℕ :=
  if 0 < options.availableMax ∧ options.availableMax < s.available.size + nelements then
    options.availableMax - s.available.size
  else nelements

/-- `pomelo_pool_release_elements`. -/
def releaseElements (s : PoolMemory) (elements : List ℕ) : PoolMemory :=
  { s with
    available := s.available.link (elements.take (s.nrelease options elements.length))
    allocated := s.allocated.unlink (elements.drop (s.nrelease options elements.length)) }

/-- The flag is set and the element returned to the user. -/
def handOut (s : PoolMemory) (element : ℕ) : PoolMemory :=
  { s with
    acquired := Function.update s.acquired element true
    handed := element :: s.handed }

/-- A user gives an element back. -/
def takeBack (s : PoolMemory) (element : ℕ) : PoolMemory :=
  { s with
    acquired := Function.update s.acquired element false
    handed := s.handed.erase element }

/-- Writing the array of a shared pool. -/
def setShared (s : PoolMemory) (pool : ℕ) (p : SharedArray) : PoolMemory :=
  { s with shared := s.shared.set pool p }

end Elements

section Calls

variable (options : PoolOptions)

/-- `pomelo_pool_root_acquire`. -/
def rootAcquire (s : PoolMemory) (blocks : ℕ) : PoolMemory × Option ℕ :=
  let (s, elements) := s.acquireElements 1
  let (s, elements) :=
    if elements = [] then s.allocateElements options 1 blocks else (s, elements)
  match elements with
  | [] => (s, none)
  | element :: _ =>
      -- `element->available_next = NULL`
      let available :=
        { s.available with next := Function.update s.available.next element none }
      ({ s with available := available }.handOut element, some element)

/-- `pomelo_pool_root_release` of an element that a user has. -/
def rootRelease (s : PoolMemory) (element : ℕ) : PoolMemory :=
  if element ∉ s.handed then s
  else if !s.acquired element then { s with handed := s.handed.erase element }
  else (s.takeBack element).releaseElements options [element]

/-- `pomelo_pool_shared_create`. -/
def sharedCreate (s : PoolMemory) (buffers : ℕ) : PoolMemory :=
  let buffers := if buffers = 0 then Pools.sharedPoolDefaultBuffers else buffers
  { s with shared := s.shared ++ [⟨buffers, []⟩] }

/-- The requests of `pomelo_shared_pool_acquire` for more elements. -/
def sharedRefill (s : PoolMemory) (p : SharedArray) (blocks : ℕ) : PoolMemory × List ℕ :=
  let (s, elements) :=
    if p.elements = [] then s.acquireElements p.buffers else (s, p.elements)
  if elements = [] then s.allocateElements options p.buffers blocks else (s, elements)

/-- `pomelo_shared_pool_acquire`. -/
def sharedAcquire (s : PoolMemory) (pool blocks : ℕ) : PoolMemory × Option ℕ :=
  match s.shared[pool]? with
  | none => (s, none)
  | some p =>
      let (s, elements) := s.sharedRefill options p blocks
      let s := s.setShared pool { p with elements := elements.dropLast }
      match elements.getLast? with
      | none => (s, none)
      | some element => (s.handOut element, some element)

/-- `pomelo_pool_shared_release` of an element that a user has. -/
def sharedRelease (s : PoolMemory) (pool element : ℕ) : PoolMemory :=
  match s.shared[pool]? with
  | none => s
  | some p =>
      if element ∉ s.handed then s
      else if !s.acquired element then { s with handed := s.handed.erase element }
      else if p.elements.length = 2 * p.buffers then
        let s := s.releaseElements options ((p.elements.drop p.buffers).take p.buffers)
        (s.takeBack element).setShared pool
          { p with elements := p.elements.take p.buffers ++ [element] }
      else (s.takeBack element).setShared pool { p with elements := p.elements ++ [element] }

/-- One call, with the element that it returns. -/
def step (s : PoolMemory) : PoolUse → PoolMemory × Option ℕ
  | .rootAcquire blocks => s.rootAcquire options blocks
  | .rootRelease element => (s.rootRelease options element, none)
  | .sharedCreate buffers => (s.sharedCreate buffers, none)
  | .sharedAcquire pool blocks => s.sharedAcquire options pool blocks
  | .sharedRelease pool element => (s.sharedRelease options pool element, none)

end Calls

/-- The elements in the arrays of the shared pools. -/
def arrays (s : PoolMemory) : List ℕ := (s.shared.map SharedArray.elements).flatten

/-- The accounts: `flight` are the elements in the hands of the running call, and `available` and
`allocated` those of the two lists. -/
structure Accounted (options : PoolOptions) (s : PoolMemory)
    (flight available allocated : List ℕ) : Prop where
  availableList : s.available.Represents available
  allocatedList : s.allocated.Represents allocated
  /-- Every element is in one place, since the list of all of them has none twice. -/
  places : allocated.Perm (flight ++ s.handed ++ available ++ s.arrays)
  availableMax : 0 < options.availableMax → s.available.size ≤ options.availableMax
  allocatedMax : 0 < options.allocatedMax → s.allocated.size ≤ options.allocatedMax
  buffers_pos : ∀ p ∈ s.shared, 0 < p.buffers
  arrays_le : ∀ p ∈ s.shared, p.elements.length ≤ 2 * p.buffers
  acquired : ∀ element ∈ s.handed, s.acquired element = true
  fresh : ∀ element ∈ allocated, element < s.nextElement

section Places

variable {options : PoolOptions} {s : PoolMemory} {flight available allocated : List ℕ}
  {element : ℕ}

theorem accounted_create (options : PoolOptions) : Accounted options create [] [] [] where
  availableList := ElementList.represents_empty
  allocatedList := ElementList.represents_empty
  places := List.Perm.refl _
  availableMax _ := Nat.zero_le _
  allocatedMax _ := Nat.zero_le _
  buffers_pos _ h := absurd h List.not_mem_nil
  arrays_le _ h := absurd h List.not_mem_nil
  acquired _ h := absurd h List.not_mem_nil
  fresh _ h := absurd h List.not_mem_nil

theorem Accounted.nodup (h : Accounted options s flight available allocated) :
    (flight ++ s.handed ++ available ++ s.arrays).Nodup :=
  h.places.nodup_iff.mp h.allocatedList.linked.nodup

theorem Accounted.handed_nodup (h : Accounted options s flight available allocated) :
    s.handed.Nodup := by
  have hall := h.nodup
  rw [List.append_assoc, List.append_assoc] at hall
  exact (List.nodup_append.mp (List.nodup_append.mp hall).2.1).1

theorem Accounted.count (h : Accounted options s flight available allocated) (e : ℕ) :
    allocated.count e =
      flight.count e + s.handed.count e + available.count e + s.arrays.count e := by
  rw [h.places.count_eq, List.count_append, List.count_append, List.count_append]

theorem places_of_count {handed arrays : List ℕ}
    (h : ∀ e, allocated.count e =
      flight.count e + handed.count e + available.count e + arrays.count e) :
    allocated.Perm (flight ++ handed ++ available ++ arrays) := by
  refine List.perm_iff_count.mpr fun e => ?_
  rw [h e, List.count_append, List.count_append, List.count_append]

theorem Accounted.acquireElements (h : Accounted options s flight available allocated)
    (nelements : ℕ) :
    (s.acquireElements nelements).2 = available.take nelements ∧
      Accounted options (s.acquireElements nelements).1
        ((s.acquireElements nelements).2 ++ flight) (available.drop nelements) allocated := by
  have hcollect := ElementList.collect_eq h.availableList nelements
  have hnodup : (available.take nelements).Nodup :=
    h.availableList.linked.nodup.sublist (List.take_sublist ..)
  have hunlink := h.availableList.unlink hnodup fun t ht => List.mem_of_mem_take ht
  rw [ElementList.diff_take] at hunlink
  have heq : s.acquireElements nelements =
      ({ s with available := s.available.unlink (available.take nelements) },
        available.take nelements) := by
    rw [PoolMemory.acquireElements, hcollect]
  rw [heq]
  dsimp only
  refine ⟨rfl, ?_⟩
  refine { h with
    availableList := hunlink
    places := places_of_count fun e => ?_
    availableMax := fun hmax =>
      Nat.le_trans (Nat.le_of_eq hunlink.size) (Nat.le_trans ?_ (h.availableMax hmax)) }
  · have hsplit := congrArg (List.count e) (List.take_append_drop nelements available)
    rw [List.count_append] at hsplit
    rw [List.count_append, h.count e, ← hsplit]
    change _ = _ + s.handed.count e + _ + s.arrays.count e
    omega
  · rw [h.availableList.size]
    exact (List.drop_sublist ..).length_le

theorem Accounted.notMem (h : Accounted options s flight available allocated)
    (hnew : s.nextElement ≤ element) :
    element ∉ allocated ∧ element ∉ available ∧ element ∉ s.handed := by
  have hnot : element ∉ allocated := fun hmem => absurd (h.fresh element hmem) (Nat.not_lt.mpr hnew)
  rw [h.places.mem_iff] at hnot
  simp only [List.mem_append, not_or] at hnot
  obtain ⟨⟨⟨hflight, hhanded⟩, havailable⟩, harrays⟩ := hnot
  refine ⟨fun hmem => ?_, havailable, hhanded⟩
  exact absurd (h.fresh element hmem) (Nat.not_lt.mpr hnew)

theorem Accounted.allocateElements (h : Accounted options s flight available allocated)
    (nelements blocks : ℕ) :
    Accounted options (s.allocateElements options nelements blocks).1
      ((s.allocateElements options nelements blocks).2 ++ flight) available
      ((s.allocateElements options nelements blocks).2 ++ allocated) := by
  obtain ⟨count, hcount, heq⟩ : ∃ count,
      (0 < options.allocatedMax → s.allocated.size + count ≤ options.allocatedMax) ∧
      s.allocateElements options nelements blocks =
        ({ s with
            available := s.available.zero (List.range' s.nextElement count)
            allocated := (s.allocated.zero (List.range' s.nextElement count)).link
              (List.range' s.nextElement count)
            nextElement := s.nextElement + count
            acquired := fun element =>
              if element ∈ List.range' s.nextElement count then false else s.acquired element },
          List.range' s.nextElement count) := by
    refine ⟨_, fun hmax => ?_, rfl⟩
    have hle := h.allocatedMax hmax
    split <;> omega
  rw [heq]
  dsimp only
  have hnew : ∀ e ∈ List.range' s.nextElement count, s.nextElement ≤ e := fun e he =>
    (List.mem_range'_1.mp he).1
  have hdisjoint : List.Disjoint (List.range' s.nextElement count) allocated := fun e he hmem =>
    (h.notMem (hnew e he)).1 hmem
  have hlink := (h.allocatedList.zero hdisjoint).link List.nodup_range' hdisjoint
  refine {
    availableList := h.availableList.zero fun e he hmem => (h.notMem (hnew e he)).2.1 hmem
    allocatedList := hlink
    places := places_of_count fun e => ?_
    availableMax := h.availableMax
    allocatedMax := fun hmax => ?_
    buffers_pos := h.buffers_pos
    arrays_le := h.arrays_le
    acquired := fun e he => ?_
    fresh := fun e he => ?_ }
  · rw [List.count_append, List.count_append, h.count e]
    change _ = _ + s.handed.count e + _ + s.arrays.count e
    omega
  · refine Nat.le_trans (Nat.le_of_eq hlink.size) ?_
    rw [List.length_append, List.length_range', Nat.add_comm, ← h.allocatedList.size]
    exact hcount hmax
  · exact (if_neg fun hmem => (h.notMem (hnew e hmem)).2.2 he).trans (h.acquired e he)
  · rcases List.mem_append.mp he with he | he
    · exact (List.mem_range'_1.mp he).2
    · exact Nat.lt_add_right count (h.fresh e he)

theorem Accounted.releaseElements {elements : List ℕ}
    (h : Accounted options s (elements ++ flight) available allocated) :
    ∃ available' allocated',
      Accounted options (s.releaseElements options elements) flight available' allocated' := by
  unfold PoolMemory.releaseElements
  have hroom : 0 < options.availableMax →
      s.available.size + min (s.nrelease options elements.length) elements.length ≤
        options.availableMax := by
    intro hmax
    have hle := h.availableMax hmax
    unfold nrelease
    split <;> omega
  generalize s.nrelease options elements.length = n at *
  have hnodup := h.nodup
  rw [List.append_assoc, List.append_assoc, List.append_assoc] at hnodup
  obtain ⟨helements, hrest, hdisjoint⟩ := List.nodup_append.mp hnodup
  have hallocated : ∀ e ∈ elements, e ∈ allocated := fun e he =>
    h.places.mem_iff.mpr (by simp [he])
  have hlink := h.availableList.link (helements.sublist (List.take_sublist n elements))
    fun e he hmem => hdisjoint e (List.mem_of_mem_take he) e (by simp [hmem]) rfl
  have hdropped := helements.sublist (List.drop_sublist n elements)
  have hunlink := h.allocatedList.unlink hdropped
    fun e he => hallocated e (List.mem_of_mem_drop he)
  refine ⟨_, _, {
    availableList := hlink
    allocatedList := hunlink
    places := places_of_count fun e => ?_
    availableMax := fun hmax => ?_
    allocatedMax := fun hmax => ?_
    buffers_pos := h.buffers_pos
    arrays_le := h.arrays_le
    acquired := h.acquired
    fresh := fun e he => h.fresh e (List.diff_subset _ _ he) }⟩
  · have hall := (ElementList.perm_append_diff hdropped
      fun e he => hallocated e (List.mem_of_mem_drop he)).count_eq e
    have hsplit := congrArg (List.count e) (List.take_append_drop n elements)
    have hcount := h.count e
    rw [List.count_append] at hall hsplit hcount ⊢
    change _ = _ + s.handed.count e + _ + s.arrays.count e
    omega
  · refine Nat.le_trans (Nat.le_of_eq hlink.size) ?_
    rw [List.length_append, List.length_take, Nat.add_comm, ← h.availableList.size]
    exact hroom hmax
  · refine Nat.le_trans (Nat.le_of_eq hunlink.size) (Nat.le_trans ?_ (h.allocatedMax hmax))
    rw [h.allocatedList.size]
    exact (List.diff_sublist ..).length_le

theorem Accounted.inFlight (h : Accounted options s (element :: flight) available allocated) :
    element ∉ s.handed ∧ element ∉ available := by
  have hnodup := h.nodup
  rw [List.cons_append, List.cons_append, List.cons_append, List.nodup_cons] at hnodup
  simp only [List.mem_append, not_or] at hnodup
  exact ⟨hnodup.1.1.1.2, hnodup.1.1.2⟩

theorem Accounted.handOut (h : Accounted options s (element :: flight) available allocated) :
    element ∉ s.handed ∧ Accounted options (s.handOut element) flight available allocated := by
  have hnot := h.inFlight.1
  refine ⟨hnot, { h with places := places_of_count fun e => ?_, acquired := ?_ }⟩
  · have hcount := h.count e
    change _ = _ + (element :: s.handed).count e + _ + s.arrays.count e
    rw [List.count_cons] at hcount ⊢
    omega
  · intro e he
    change Function.update s.acquired element true e = true
    rcases List.mem_cons.mp he with rfl | he
    · exact Function.update_self ..
    · rw [Function.update_of_ne (ne_of_mem_of_not_mem he hnot)]
      exact h.acquired e he

theorem Accounted.clearNext (h : Accounted options s (element :: flight) available allocated) :
    Accounted options { s with available :=
      { s.available with next := Function.update s.available.next element none } }
      (element :: flight) available allocated :=
  { h with availableList :=
    ⟨h.availableList.linked.setNext h.inFlight.2 none, h.availableList.size⟩ }

theorem Accounted.takeBack (h : Accounted options s flight available allocated)
    (helement : element ∈ s.handed) :
    Accounted options (s.takeBack element) (element :: flight) available allocated := by
  have hcount : ∀ e, (element :: s.handed.erase element).count e = s.handed.count e := fun e =>
    (List.perm_cons_erase helement).symm.count_eq e
  have hnodup := h.handed_nodup
  refine { h with places := places_of_count fun e => ?_, acquired := fun e he => ?_ }
  · have hplaces := h.count e
    have he := hcount e
    change _ = _ + (s.handed.erase element).count e + _ + s.arrays.count e
    rw [List.count_cons] at he ⊢
    omega
  · change Function.update s.acquired element false e = true
    have hne : e ≠ element := by
      rintro rfl
      exact hnodup.not_mem_erase he
    rw [Function.update_of_ne hne]
    exact h.acquired e (List.mem_of_mem_erase he)

theorem count_arrays_setShared {pool : ℕ} {p : SharedArray} (hp : s.shared[pool]? = some p)
    (p' : SharedArray) (e : ℕ) : (s.setShared pool p').arrays.count e + p.elements.count e =
      s.arrays.count e + p'.elements.count e := by
  unfold arrays setShared
  dsimp only
  generalize s.shared = shared at hp
  induction shared generalizing pool with
  | nil => cases hp
  | cons first shared ih =>
      cases pool with
      | zero =>
          obtain rfl := Option.some.inj hp
          rw [List.set_cons_zero, List.map_cons, List.map_cons, List.flatten_cons,
            List.flatten_cons, List.count_append, List.count_append]
          omega
      | succ pool =>
          have hrest := ih hp
          rw [List.set_cons_succ, List.map_cons, List.map_cons, List.flatten_cons,
            List.flatten_cons, List.count_append, List.count_append]
          omega

theorem Accounted.setShared (h : Accounted options s flight available allocated) {pool : ℕ}
    {p : SharedArray} (hp : s.shared[pool]? = some p) {flight' elements : List ℕ}
    (hmoved : (flight' ++ elements).Perm (flight ++ p.elements))
    (hlength : elements.length ≤ 2 * p.buffers) :
    Accounted options (s.setShared pool { p with elements := elements }) flight' available
      allocated := by
  refine { h with
    places := places_of_count fun e => ?_
    buffers_pos := fun p' hp' => ?_
    arrays_le := fun p' hp' => ?_ }
  · have hplaces := h.count e
    have harrays := count_arrays_setShared hp { p with elements := elements } e
    have hperm := hmoved.count_eq e
    rw [List.count_append, List.count_append] at hperm
    change _ = _ + s.handed.count e + _ + _
    dsimp only at harrays
    omega
  · rcases List.mem_or_eq_of_mem_set hp' with hold | rfl
    · exact h.buffers_pos p' hold
    · exact h.buffers_pos p (List.mem_of_getElem? hp)
  · rcases List.mem_or_eq_of_mem_set hp' with hold | rfl
    · exact h.arrays_le p' hold
    · exact hlength

end Places

section Steps

variable {options : PoolOptions} {s : PoolMemory} {available allocated : List ℕ} {element : ℕ}

/-- The accounts between two calls. -/
def Kept (options : PoolOptions) (s : PoolMemory) : Prop :=
  ∃ available allocated, Accounted options s [] available allocated

/-- The request of the acquiring functions: available elements, or new ones. -/
theorem Accounted.request (h : Accounted options s [] available allocated) (nelements blocks : ℕ) :
    ∃ s' elements available' allocated',
      (if (s.acquireElements nelements).2 = [] then
        (s.acquireElements nelements).1.allocateElements options nelements blocks
      else s.acquireElements nelements) = (s', elements) ∧
      Accounted options s' elements available' allocated' ∧ elements.length ≤ nelements ∧
      s'.handed = s.handed ∧ s'.shared = s.shared := by
  obtain ⟨htake, hacquired⟩ := h.acquireElements nelements
  rw [List.append_nil] at hacquired
  split
  next hnone =>
    rw [hnone] at hacquired
    have hallocated := hacquired.allocateElements nelements blocks
    rw [List.append_nil] at hallocated
    refine ⟨_, _, _, _, rfl, hallocated, ?_, rfl, rfl⟩
    refine Nat.le_trans (Nat.le_of_eq List.length_range') (Nat.le_trans (Nat.min_le_left ..) ?_)
    split <;> omega
  next =>
    refine ⟨_, _, _, _, rfl, hacquired, ?_, rfl, rfl⟩
    change (s.acquireElements nelements).2.length ≤ nelements
    rw [htake, List.length_take]
    exact Nat.min_le_left ..

theorem Accounted.rootAcquire (h : Accounted options s [] available allocated) (blocks : ℕ) :
    Kept options (s.rootAcquire options blocks).1 ∧
      ∀ element, (s.rootAcquire options blocks).2 = some element → element ∉ s.handed := by
  obtain ⟨s', elements, available', allocated', heq, haccounted, hlength, hhanded, -⟩ :=
    h.request 1 blocks
  unfold PoolMemory.rootAcquire
  dsimp only
  rw [heq]
  cases elements with
  | nil => exact ⟨⟨_, _, haccounted⟩, nofun⟩
  | cons element rest =>
      obtain rfl := List.length_eq_zero_iff.mp (Nat.le_zero.mp (Nat.le_of_succ_le_succ hlength))
      obtain ⟨hnot, hout⟩ := haccounted.clearNext.handOut
      refine ⟨⟨_, _, hout⟩, ?_⟩
      rintro _ ⟨⟩
      exact hhanded ▸ hnot

theorem Accounted.rootRelease (h : Accounted options s [] available allocated) (element : ℕ) :
    Kept options (s.rootRelease options element) := by
  unfold PoolMemory.rootRelease
  split
  · exact ⟨_, _, h⟩
  next hhanded =>
    have helement := not_not.mp hhanded
    rw [h.acquired element helement, Bool.not_true, if_neg Bool.false_ne_true]
    exact (h.takeBack helement).releaseElements

theorem Accounted.sharedCreate (h : Accounted options s [] available allocated) (buffers : ℕ) :
    Kept options (s.sharedCreate buffers) := by
  refine ⟨available, allocated, { h with
    places := places_of_count fun e => ?_
    buffers_pos := fun p hp => ?_
    arrays_le := fun p hp => ?_ }⟩
  · have hnone : (s.sharedCreate buffers).arrays = s.arrays := by
      simp [arrays, PoolMemory.sharedCreate]
    rw [hnone]
    exact h.count e
  · rcases List.mem_append.mp hp with hold | hnew
    · exact h.buffers_pos p hold
    · rw [List.mem_singleton.mp hnew]
      dsimp only
      split
      · exact Nat.succ_pos 15
      · exact Nat.pos_of_ne_zero ‹_›
  · rcases List.mem_append.mp hp with hold | hnew
    · exact h.arrays_le p hold
    · rw [List.mem_singleton.mp hnew]
      exact Nat.zero_le _

theorem Accounted.sharedRefill (h : Accounted options s [] available allocated) {pool : ℕ}
    {p : SharedArray} (hp : s.shared[pool]? = some p) (blocks : ℕ) :
    ∃ s' elements flight available' allocated',
      s.sharedRefill options p blocks = (s', elements) ∧
      Accounted options s' flight available' allocated' ∧
      elements.Perm (flight ++ p.elements) ∧ elements.length ≤ 2 * p.buffers ∧
      s'.handed = s.handed ∧ s'.shared = s.shared := by
  unfold PoolMemory.sharedRefill
  by_cases hempty : p.elements = []
  · obtain ⟨s', elements, available', allocated', heq, haccounted, hlength, hhanded, hshared⟩ :=
      h.request p.buffers blocks
    rw [if_pos hempty]
    dsimp only
    rw [heq, hempty]
    refine ⟨s', elements, elements, _, _, rfl, haccounted, ?_, by omega, hhanded, hshared⟩
    rw [List.append_nil]
  · rw [if_neg hempty]
    dsimp only
    rw [if_neg hempty]
    exact ⟨s, p.elements, [], _, _, rfl, h, List.Perm.refl _,
      h.arrays_le p (List.mem_of_getElem? hp), rfl, rfl⟩

theorem Accounted.sharedAcquire (h : Accounted options s [] available allocated)
    (pool blocks : ℕ) :
    Kept options (s.sharedAcquire options pool blocks).1 ∧
      ∀ element, (s.sharedAcquire options pool blocks).2 = some element →
        element ∉ s.handed := by
  unfold PoolMemory.sharedAcquire
  cases hp : s.shared[pool]? with
  | none => exact ⟨⟨_, _, h⟩, nofun⟩
  | some p =>
      obtain ⟨s', elements, flight, available', allocated', heq, haccounted, hperm, hlength,
        hhanded, hshared⟩ := h.sharedRefill hp blocks
      rw [← hshared] at hp
      dsimp only
      rw [heq]
      dsimp only
      cases hlast : elements.getLast? with
      | none =>
          obtain rfl := List.getLast?_eq_none_iff.mp hlast
          exact ⟨⟨_, _, haccounted.setShared hp hperm (Nat.zero_le _)⟩, nofun⟩
      | some element =>
          have hsplit : elements = elements.dropLast ++ [element] :=
            (List.dropLast_append_getLast? _ hlast).symm
          have hmoved : ([element] ++ elements.dropLast).Perm (flight ++ p.elements) := by
            refine List.perm_append_comm.trans ?_
            rw [← hsplit]
            exact hperm
          have hset := haccounted.setShared hp hmoved
            (Nat.le_trans (List.dropLast_sublist elements).length_le hlength)
          obtain ⟨hnot, hout⟩ := hset.handOut
          refine ⟨⟨_, _, hout⟩, ?_⟩
          rintro _ ⟨⟩
          exact hhanded ▸ hnot

theorem Accounted.sharedRelease (h : Accounted options s [] available allocated)
    (pool element : ℕ) : Kept options (s.sharedRelease options pool element) := by
  unfold PoolMemory.sharedRelease
  cases hp : s.shared[pool]? with
  | none => exact ⟨_, _, h⟩
  | some p =>
      dsimp only
      split
      · exact ⟨_, _, h⟩
      next hhanded =>
        have helement := not_not.mp hhanded
        have hle := h.arrays_le p (List.mem_of_getElem? hp)
        rw [h.acquired element helement, Bool.not_true, if_neg Bool.false_ne_true]
        split
        next hfull =>
          have hhalf : (p.elements.drop p.buffers).take p.buffers = p.elements.drop p.buffers := by
            refine List.take_of_length_le ?_
            rw [List.length_drop]
            omega
          rw [hhalf]
          -- the second half leaves the array, and is released
          have hout : (p.elements.drop p.buffers ++ p.elements.take p.buffers).Perm
              ([] ++ p.elements) :=
            List.perm_append_comm.trans
              (List.Perm.of_eq (List.take_append_drop p.buffers p.elements))
          have hleft := h.setShared hp hout
            (Nat.le_trans (List.take_sublist ..).length_le hle)
          rw [← List.append_nil (p.elements.drop p.buffers)] at hleft
          obtain ⟨available', allocated', hreleased⟩ := hleft.releaseElements
          have hp' : (s.setShared pool
              { p with elements := p.elements.take p.buffers }).shared[pool]?
              = some { p with elements := p.elements.take p.buffers } :=
            List.getElem?_set_self (List.getElem?_eq_some_iff.mp hp).1
          have hpush : ([] ++ (p.elements.take p.buffers ++ [element])).Perm
              ([element] ++ p.elements.take p.buffers) := by
            rw [List.nil_append]
            exact List.perm_append_comm
          have hpos := h.buffers_pos p (List.mem_of_getElem? hp)
          have hpushed := (hreleased.takeBack helement).setShared hp' hpush (by
            rw [List.length_append, List.length_take, List.length_singleton]
            dsimp only
            omega)
          refine ⟨available', allocated', ?_⟩
          have hset : (s.shared.set pool { p with elements := p.elements.take p.buffers }).set pool
              { p with elements := p.elements.take p.buffers ++ [element] } = s.shared.set pool
                { p with elements := p.elements.take p.buffers ++ [element] } := List.set_set ..
          change Accounted options { (s.releaseElements options
            (p.elements.drop p.buffers)).takeBack element with shared := s.shared.set pool _ } _ _ _
          rw [← hset]
          exact hpushed
        next hroom =>
          have hmoved : ([] ++ (p.elements ++ [element])).Perm ([element] ++ p.elements) := by
            rw [List.nil_append]
            exact List.perm_append_comm
          refine ⟨_, _, (h.takeBack helement).setShared hp hmoved ?_⟩
          rw [List.length_append, List.length_singleton]
          omega

theorem Kept.step (h : Kept options s) (use : PoolUse) :
    Kept options (s.step options use).1 ∧
      ∀ element, (s.step options use).2 = some element → element ∉ s.handed := by
  obtain ⟨available, allocated, haccounted⟩ := h
  cases use with
  | rootAcquire blocks => exact haccounted.rootAcquire blocks
  | rootRelease element => exact ⟨haccounted.rootRelease element, nofun⟩
  | sharedCreate buffers => exact ⟨haccounted.sharedCreate buffers, nofun⟩
  | sharedAcquire pool blocks => exact haccounted.sharedAcquire pool blocks
  | sharedRelease pool element => exact ⟨haccounted.sharedRelease pool element, nofun⟩

end Steps

/-- In every run the accounts hold at the end, and no call hands out an element that a user has. -/
theorem poolAccounts_run (options : PoolOptions) (uses : List PoolUse) :
    (∃ available allocated,
      Accounted options (run (next (step options)) create uses) [] available allocated) ∧
    Along (next (step options))
      (fun s use => ∀ element, (s.step options use).2 = some element → element ∉ s.handed)
      create uses := by
  have hrun : ∀ (uses : List PoolUse) (s : PoolMemory), Kept options s →
      Kept options (run (next (step options)) s uses) ∧
        Along (next (step options))
          (fun s use => ∀ element, (s.step options use).2 = some element → element ∉ s.handed)
          s uses := by
    intro uses
    induction uses with
    | nil => exact fun s h => ⟨h, trivial⟩
    | cons use uses ih =>
        intro s h
        obtain ⟨hkept, hnot⟩ := h.step use
        obtain ⟨hend, halong⟩ := ih _ hkept
        exact ⟨hend, hnot, halong⟩
  exact hrun uses create ⟨[], [], accounted_create options⟩

end PoolMemory

end Utils

end PomeloUdp
