import Mathlib.Data.List.Nodup
import Mathlib.Logic.Function.Basic
import PomeloUdp.Library.Run

/-!
# Object pools and their callbacks

A root pool allocates elements, keeps the released ones in a list and calls the callbacks
of its user. A shared pool takes elements from the root pool a buffer at a time, keeps them
in an array and hands them out itself. Both hand out elements of the root pool, and an
element may be released to either.

The functions follow `pool.c`. An element is the number of its memory block, which is new
for every block; an operation is one step, since an element in the hands of one call is in
no list and its callbacks concern it alone. `Pools.calls` is the trace of what the pools
do: no function reads it.
-/

namespace PomeloUdp

namespace Utils

/-- The options of a root pool: the limits, zero for none, and which callbacks are set. -/
structure PoolOptions where
  availableMax : ℕ
  allocatedMax : ℕ
  onAlloc : Bool
  onFree : Bool
  onInit : Bool
  onCleanup : Bool

/-- `pomelo_pool_element_t`: its flags, and whether a user has it. -/
structure PoolElement where
  initialized : Bool
  acquired : Bool
  held : Bool
  deriving DecidableEq, Repr

/-- What a pool does with an element. -/
inductive PoolCall where
  | malloc (element : ℕ)
  | onAlloc (element : ℕ) (succeeded : Bool)
  | onInit (element : ℕ) (succeeded : Bool)
  | onCleanup (element : ℕ)
  | onFree (element : ℕ)
  /-- The element is returned to the user. -/
  | handOut (element : ℕ)
  | free (element : ℕ)
  deriving DecidableEq, Repr

/-- A pointer in the array of a shared pool. -/
inductive PoolSlot where
  | element (element : ℕ)
  /-- The pointer to the data of an element, which is behind its header. -/
  | data (element : ℕ)
  deriving DecidableEq, Repr

/-- `pomelo_pool_shared_t`; the length of the array is `index`. -/
structure SharedPool where
  buffers : ℕ
  elements : List PoolSlot
  deriving DecidableEq, Repr

inductive PoolFault where
  /-- A pointer to the data of an element is used as one to the element. -/
  | pointer
  /-- An element is used whose memory is free. -/
  | memory
  /-- The assertion of `pomelo_pool_shared_release`. -/
  | released
  deriving DecidableEq, Repr

/-- `pomelo_pool_root_t` with the shared pools made from it. -/
structure Pools where
  elements : ℕ → Option PoolElement
  nextElement : ℕ
  availableElements : List ℕ
  allocatedElements : List ℕ
  shared : ℕ → Option SharedPool
  destroyed : Bool
  fault : Option PoolFault
  calls : List PoolCall

/-- What the allocator and the callbacks answer in a step. -/
structure PoolEnv where
  /-- How many blocks the allocator has. -/
  blocks : ℕ
  allocated : Bool
  initialized : Bool

namespace Pools

/-- A root pool. -/
def create : Pools where
  elements _ := none
  nextElement := 0
  availableElements := []
  allocatedElements := []
  shared _ := none
  destroyed := false
  fault := none
  calls := []

section Elements

/-- The pool does something. -/
def call (s : Pools) (c : PoolCall) : Pools := { s with calls := s.calls ++ [c] }

/-- A callback, if it is set. -/
def callback (s : Pools) (set : Bool) (c : PoolCall) : Pools := if set then s.call c else s

/-- Writing an element. -/
def modifyElement (s : Pools) (id : ℕ) (f : PoolElement → PoolElement) : Pools :=
  { s with elements := Function.update s.elements id ((s.elements id).map f) }

/-- Writing a shared pool. -/
def setShared (s : Pools) (pool : ℕ) (p : Option SharedPool) : Pools :=
  { s with shared := Function.update s.shared pool p }

/-- `pomelo_pool_acquire_elements`. -/
def acquireElements (s : Pools) (nelements : ℕ) : Pools × List ℕ :=
  ({ s with availableElements := s.availableElements.drop nelements },
    s.availableElements.take nelements)

/-- `pomelo_pool_allocate_elements`. -/
def allocateElements (options : PoolOptions) (s : Pools) (nelements blocks : ℕ) :
    Pools × List ℕ :=
  let cap :=
    if 0 < options.allocatedMax ∧ options.allocatedMax < s.allocatedElements.length + nelements then
      options.allocatedMax - s.allocatedElements.length
    else nelements
  let ids := List.range' s.nextElement (min cap blocks)
  ({ s with
      elements := fun id => if id ∈ ids then some ⟨false, false, false⟩ else s.elements id
      nextElement := s.nextElement + min cap blocks
      allocatedElements := ids ++ s.allocatedElements
      calls := s.calls ++ ids.map .malloc }, ids)

/-- How many of the elements the list of available ones takes. -/
def nrelease (options : PoolOptions) (s : Pools) (nelements : ℕ) : ℕ :=
  if 0 < options.availableMax ∧ options.availableMax < s.availableElements.length + nelements then
    options.availableMax - s.availableElements.length
  else nelements

/-- `pomelo_pool_release_elements`. -/
def releaseElements (options : PoolOptions) (s : Pools) (ids : List ℕ) : Pools :=
  let freed := ids.drop (s.nrelease options ids.length)
  { s with
    elements := fun id => if id ∈ freed then none else s.elements id
    availableElements := ids.take (s.nrelease options ids.length) ++ s.availableElements
    allocatedElements := s.allocatedElements.filter (· ∉ freed)
    calls := s.calls ++ freed.map .free }

end Elements

section Root

/-- The second half of `pomelo_pool_root_acquire`. -/
def rootInit (options : PoolOptions) (s : Pools) (env : PoolEnv) (id : ℕ) : Pools :=
  match s.elements id with
  | none => { s with fault := some .memory }
  | some _ =>
      if options.onInit && !env.initialized then
        let s := s.call (.onInit id false)
        let s := s.callback options.onCleanup (.onCleanup id)
        s.releaseElements options [id]
      else
        let s := s.callback options.onInit (.onInit id true)
        let s := s.modifyElement id fun e => { e with acquired := true, held := true }
        s.call (.handOut id)

/-- `pomelo_pool_root_acquire`. -/
def rootAcquire (options : PoolOptions) (s : Pools) (env : PoolEnv) : Pools :=
  match s.acquireElements 1 with
  | (s, id :: _) => s.rootInit options env id
  | (s, []) =>
      match s.allocateElements options 1 env.blocks with
      | (s, []) => s
      | (s, id :: _) =>
          if options.onAlloc && !env.allocated then
            let s := s.call (.onAlloc id false)
            let s := s.callback options.onFree (.onFree id)
            s.releaseElements options [id]
          else
            let s := s.callback options.onAlloc (.onAlloc id true)
            let s := s.modifyElement id fun e => { e with initialized := true }
            s.rootInit options env id

/-- `pomelo_pool_root_release` of an element that a user has. -/
def rootRelease (options : PoolOptions) (s : Pools) (id : ℕ) : Pools :=
  match s.elements id with
  | none => s
  | some e =>
      if !e.held then s
      else if !e.acquired then s
      else
        let s := s.callback options.onCleanup (.onCleanup id)
        let s := s.modifyElement id fun e => { e with acquired := false, held := false }
        s.releaseElements options [id]

/-- `pomelo_pool_root_destroy`: what happens to an element. -/
def destroyElement (options : PoolOptions) (s : Pools) (id : ℕ) : Pools :=
  match s.elements id with
  | none => { s with fault := some .memory }
  | some e =>
      let s := s.callback (options.onCleanup && e.acquired) (.onCleanup id)
      let s := s.callback (options.onFree && e.initialized) (.onFree id)
      let s := s.call (.free id)
      { s with elements := Function.update s.elements id none }

/-- `pomelo_pool_root_destroy`. -/
def rootDestroy (options : PoolOptions) (s : Pools) : Pools :=
  let s := s.allocatedElements.foldl (destroyElement options) s
  { s with availableElements := [], allocatedElements := [], destroyed := true }

end Root

section Shared

/-- `POMELO_SHARED_POOL_DEFAULT_BUFFERS`. -/
def sharedPoolDefaultBuffers : ℕ := 16

/-- `pomelo_pool_shared_create`. -/
def sharedCreate (s : Pools) (pool buffers : ℕ) : Pools :=
  match s.shared pool with
  | some _ => s
  | none =>
      s.setShared pool (some ⟨if buffers = 0 then sharedPoolDefaultBuffers else buffers, []⟩)

/-- The elements of an array that hold no pointer to data. -/
def slotElements (slots : List PoolSlot) : List ℕ :=
  slots.filterMap fun
    | .element id => some id
    | .data _ => none

/-- `pomelo_pool_release_elements` of a part of the array of a shared pool. -/
def releaseSlots (options : PoolOptions) (s : Pools) (slots : List PoolSlot) : Pools :=
  if (slotElements slots).length ≠ slots.length then { s with fault := some .pointer }
  else s.releaseElements options (slotElements slots)

/-- The array of a shared pool behind the requests for more elements. -/
def sharedRefill (options : PoolOptions) (s : Pools) (env : PoolEnv) (p : SharedPool) :
    Pools × List PoolSlot :=
  if p.elements ≠ [] then (s, p.elements)
  else
    match s.acquireElements p.buffers with
    | (s, id :: ids) => (s, (id :: ids).map .element)
    | (s, []) =>
        let (s, ids) := s.allocateElements options p.buffers env.blocks
        (s, ids.map .element)

/-- The part of `pomelo_shared_pool_acquire` that has an element, with the rest of the
array. -/
def sharedInit (options : PoolOptions) (s : Pools) (env : PoolEnv) (pool : ℕ) (p : SharedPool)
    (id : ℕ) : Pools :=
  match s.elements id with
  | none => { s with fault := some .memory }
  | some e =>
      if !e.initialized && options.onAlloc && !env.allocated then
        let s := s.call (.onAlloc id false)
        let s := s.callback options.onFree (.onFree id)
        -- `pool->elements[pool->index++] = data`
        s.setShared pool (some { p with elements := p.elements ++ [.data id] })
      else
        let s := s.callback (!e.initialized && options.onAlloc) (.onAlloc id true)
        let s := s.modifyElement id fun e => { e with initialized := true, acquired := true }
        if options.onInit && !env.initialized then
          let s := s.call (.onInit id false)
          let s := s.callback options.onCleanup (.onCleanup id)
          s.setShared pool (some { p with elements := p.elements ++ [.data id] })
        else
          let s := s.callback options.onInit (.onInit id true)
          let s := s.modifyElement id fun e => { e with held := true }
          s.call (.handOut id)

/-- `pomelo_shared_pool_acquire`. -/
def sharedAcquire (options : PoolOptions) (s : Pools) (env : PoolEnv) (pool : ℕ) : Pools :=
  match s.shared pool with
  | none => s
  | some p =>
      let (s, slots) := s.sharedRefill options env p
      let rest := { p with elements := slots.dropLast }
      let s := s.setShared pool (some rest)
      match slots.getLast? with
      | none => s
      | some (.data _) => { s with fault := some .pointer }
      | some (.element id) => s.sharedInit options env pool rest id

/-- `pomelo_pool_shared_release` of an element that a user has. -/
def sharedRelease (options : PoolOptions) (s : Pools) (pool id : ℕ) : Pools :=
  match s.shared pool, s.elements id with
  | some p, some e =>
      if !e.held then s
      else if !e.acquired then { s with fault := some .released }
      else
        let full := p.elements.length = 2 * p.buffers
        let s := if full then s.releaseSlots options (p.elements.drop p.buffers) else s
        let kept := if full then p.elements.take p.buffers else p.elements
        let s := s.callback options.onCleanup (.onCleanup id)
        let s := s.modifyElement id fun e => { e with acquired := false, held := false }
        s.setShared pool (some { p with elements := kept ++ [.element id] })
  | _, _ => s

/-- `pomelo_pool_shared_destroy`. -/
def sharedDestroy (options : PoolOptions) (s : Pools) (pool : ℕ) : Pools :=
  match s.shared pool with
  | none => s
  | some p => (s.releaseSlots options p.elements).setShared pool none

end Shared

end Pools

/-- The calls of the users. -/
inductive PoolEvent where
  | rootAcquire (env : PoolEnv)
  | rootRelease (element : ℕ)
  | rootDestroy
  | sharedCreate (pool buffers : ℕ)
  | sharedAcquire (pool : ℕ) (env : PoolEnv)
  | sharedRelease (pool element : ℕ)
  | sharedDestroy (pool : ℕ)

namespace Pools

/-- One call. -/
def step (options : PoolOptions) (s : Pools) (event : PoolEvent) : Pools :=
  if s.destroyed || s.fault.isSome then s
  else
    match event with
    | .rootAcquire env => s.rootAcquire options env
    | .rootRelease id => s.rootRelease options id
    | .rootDestroy => s.rootDestroy options
    | .sharedCreate pool buffers => s.sharedCreate pool buffers
    | .sharedAcquire pool env => s.sharedAcquire options env pool
    | .sharedRelease pool id => s.sharedRelease options pool id
    | .sharedDestroy pool => s.sharedDestroy options pool

end Pools

end Utils

end PomeloUdp
