import PomeloUdp.Utils.PoolAccounting
import PomeloUdp.Utils.PoolCallbacks

/-!
# The two models of a pool

`Pools` has the callbacks of a pool and its lists as sequences, and `PoolMemory` the links of the
two lists. `Mirrors s r` says that they are the same pool: the links of `s` are those of the lists
of `r`, and the elements of the users and the arrays of the shared pools are the same. Where the
callbacks succeed every call keeps it, and `mirrors_run` follows for every run, so that the accounts
of `PoolMemory` are also those of `Pools`.
-/

namespace PomeloUdp

namespace Utils

open Machine

namespace PoolMemory

variable {options : PoolOptions} {s : PoolMemory} {r : Pools} {element : ℕ}

/-- `s` and `r` are the same pool. -/
structure Mirrors (s : PoolMemory) (r : Pools) : Prop where
  available : s.available.Represents r.availableElements
  allocated : s.allocated.Represents r.allocatedElements
  nextElement : r.nextElement = s.nextElement
  unmade : ∀ id ∉ r.allocatedElements, r.elements id = none
  made : ∀ id ∈ r.allocatedElements, ∃ e, r.elements id = some e ∧
    e.acquired = s.acquired id ∧ (e.held = true ↔ id ∈ s.handed)
  shared : ∀ pool, r.shared pool =
    s.shared[pool]?.map fun p => ⟨p.buffers, p.elements.map .element⟩
  destroyed : r.destroyed = false
  fault : r.fault = none

theorem mirrors_create : Mirrors create Pools.create where
  available := ElementList.represents_empty
  allocated := ElementList.represents_empty
  nextElement := rfl
  unmade _ _ := rfl
  made _ h := absurd h List.not_mem_nil
  shared _ := rfl
  destroyed := rfl
  fault := rfl

theorem represents_unique {l : ElementList} {q q' : List ℕ} (h : l.Represents q)
    (h' : l.Represents q') : q = q' := by
  have hcollect := (ElementList.collect_eq h l.size).symm.trans (ElementList.collect_eq h' l.size)
  rwa [List.take_of_length_le (Nat.le_of_eq h.size.symm),
    List.take_of_length_le (Nat.le_of_eq h'.size.symm)] at hcollect

theorem Mirrors.accounted (h : Mirrors s r) {flight available allocated : List ℕ}
    (haccounted : Accounted options s flight available allocated) :
    Accounted options s flight r.availableElements r.allocatedElements := by
  rw [represents_unique h.available haccounted.availableList,
    represents_unique h.allocated haccounted.allocatedList]
  exact haccounted

section Elements

theorem Mirrors.call (h : Mirrors s r) (c : PoolCall) : Mirrors s (r.call c) := { h with }

theorem Mirrors.callback (h : Mirrors s r) (set : Bool) (c : PoolCall) :
    Mirrors s (r.callback set c) := by
  rw [Pools.callback_eq]
  exact { h with }

theorem Mirrors.releaseElements (h : Mirrors s r) {elements : List ℕ} (hnodup : elements.Nodup)
    (hdisjoint : List.Disjoint elements r.availableElements)
    (hmem : ∀ id ∈ elements, id ∈ r.allocatedElements) :
    Mirrors (s.releaseElements options elements) (r.releaseElements options elements) := by
  have hn : r.nrelease options elements.length = s.nrelease options elements.length := by
    unfold Pools.nrelease PoolMemory.nrelease
    rw [h.available.size]
  have hunlink := h.allocated.unlink (hnodup.sublist (List.drop_sublist
    (s.nrelease options elements.length) elements)) fun id hid => hmem id (List.mem_of_mem_drop hid)
  rw [h.allocated.linked.nodup.sdiff_eq_filter] at hunlink
  unfold PoolMemory.releaseElements Pools.releaseElements
  rw [hn]
  refine { h with
    available := h.available.link (hnodup.sublist (List.take_sublist ..))
      fun id hid => hdisjoint (List.mem_of_mem_take hid)
    allocated := hunlink
    unmade := fun id hid => ?_
    made := fun id hid => ?_ }
  · rw [List.mem_filter, not_and] at hid
    dsimp only
    split
    · rfl
    next hkept => exact h.unmade id fun hall => absurd (decide_eq_true hkept) (hid hall)
  · obtain ⟨hall, hkept⟩ := List.mem_filter.mp hid
    obtain ⟨e, he, hrest⟩ := h.made id hall
    exact ⟨e, (if_neg (of_decide_eq_true hkept)).trans he, hrest⟩

theorem Mirrors.modifyElement (h : Mirrors s r) {f : PoolElement → PoolElement}
    {acquired : ℕ → Bool} {handed : List ℕ}
    (hother : ∀ other ≠ element, acquired other = s.acquired other ∧
      (other ∈ handed ↔ other ∈ s.handed))
    (hwritten : ∀ e : PoolElement, e.acquired = s.acquired element →
      (e.held = true ↔ element ∈ s.handed) →
        (f e).acquired = acquired element ∧ ((f e).held = true ↔ element ∈ handed)) :
    Mirrors { s with acquired := acquired, handed := handed } (r.modifyElement element f) := by
  refine { h with unmade := fun id hid => ?_, made := fun id hid => ?_ }
  · change Function.update r.elements element _ id = none
    by_cases heq : id = element
    · rw [heq, Function.update_self, ← heq, h.unmade id hid]
      rfl
    · rw [Function.update_of_ne heq, h.unmade id hid]
  · obtain ⟨e, he, hacquired, hheld⟩ := h.made id hid
    change ∃ e, Function.update r.elements element _ id = some e ∧ _
    by_cases heq : id = element
    · subst heq
      rw [Function.update_self, he]
      exact ⟨f e, rfl, hwritten e hacquired hheld⟩
    · obtain ⟨hsame, hmem⟩ := hother id heq
      rw [Function.update_of_ne heq]
      exact ⟨e, he, hacquired.trans hsame.symm, hheld.trans hmem.symm⟩

theorem Mirrors.flag (h : Mirrors s r) (element : ℕ) (f : PoolElement → PoolElement)
    (hf : ∀ e, (f e).acquired = true ∧ (f e).held = e.held) :
    Mirrors { s with acquired := Function.update s.acquired element true }
      (r.modifyElement element f) := by
  refine h.modifyElement (fun other hne => ⟨Function.update_of_ne hne .., Iff.rfl⟩)
    fun e _ hheld => ?_
  rw [(hf e).1, (hf e).2, Function.update_self]
  exact ⟨rfl, hheld⟩

theorem Mirrors.handOut (h : Mirrors s r) (element : ℕ) (f : PoolElement → PoolElement)
    (hf : ∀ e, e.acquired = s.acquired element → (f e).acquired = true ∧ (f e).held = true) :
    Mirrors (s.handOut element) (r.modifyElement element f) := by
  refine h.modifyElement (fun other hne => ⟨Function.update_of_ne hne .., ?_⟩)
    fun e hacquired _ => ?_
  · rw [List.mem_cons, or_iff_right hne]
  · rw [(hf e hacquired).1, Function.update_self]
    exact ⟨rfl, iff_of_true (hf e hacquired).2 List.mem_cons_self⟩

theorem Mirrors.takeBack (h : Mirrors s r) (hnodup : s.handed.Nodup) (element : ℕ) :
    Mirrors (s.takeBack element)
      (r.modifyElement element fun e => { e with acquired := false, held := false }) := by
  refine h.modifyElement (fun other hne => ⟨Function.update_of_ne hne .., List.mem_erase_of_ne hne⟩)
    fun e _ _ => ⟨?_, iff_of_false Bool.false_ne_true hnodup.not_mem_erase⟩
  rw [Function.update_self]

theorem Mirrors.setShared (h : Mirrors s r) {pool : ℕ} {p : SharedArray}
    (hp : s.shared[pool]? = some p) (elements : List ℕ) :
    Mirrors (s.setShared pool { p with elements := elements })
      (r.setShared pool (some ⟨p.buffers, elements.map .element⟩)) := by
  refine { h with shared := fun other => ?_ }
  change Function.update r.shared pool _ other = (s.shared.set pool _)[other]?.map _
  rw [List.getElem?_set, Function.update_apply]
  by_cases heq : other = pool
  · rw [if_pos heq, if_pos heq.symm, if_pos (List.getElem?_eq_some_iff.mp hp).1]
    rfl
  · rw [if_neg heq, if_neg (Ne.symm heq)]
    exact h.shared other

/-- What the environment of `Pools` is where the callbacks succeed. -/
def successful (blocks : ℕ) : PoolEnv := ⟨blocks, true, true⟩

theorem mem_allocated_of_flight {flight : List ℕ}
    (haccounted : Accounted options s flight r.availableElements r.allocatedElements)
    (helement : element ∈ flight) : element ∈ r.allocatedElements := by
  rw [haccounted.places.mem_iff]
  simp [helement]

/-- The second half of `pomelo_pool_root_acquire`. -/
theorem Mirrors.rootInit (h : Mirrors s r) {flight : List ℕ}
    (haccounted : Accounted options s (element :: flight) r.availableElements r.allocatedElements)
    (blocks : ℕ) :
    Mirrors ({ s with available :=
        { s.available with
          next := Function.update s.available.next element none } }.handOut element)
      (r.rootInit options (successful blocks) element) := by
  obtain ⟨e, he, -⟩ := h.made element (mem_allocated_of_flight haccounted List.mem_cons_self)
  have hcleared : Mirrors { s with available :=
      { s.available with next := Function.update s.available.next element none } } r :=
    { h with available :=
      ⟨h.available.linked.setNext haccounted.inFlight.2 none, h.available.size⟩ }
  have hsuccess : (options.onInit && !(successful blocks).initialized) = false := Bool.and_false _
  unfold Pools.rootInit
  rw [he]
  dsimp only
  rw [hsuccess, if_neg Bool.false_ne_true]
  exact ((hcleared.callback _ _).handOut element _ fun _ _ => ⟨rfl, rfl⟩).call _

/-- The part of `pomelo_shared_pool_acquire` that has an element. -/
theorem Mirrors.sharedInit (h : Mirrors s r) (hmade : element ∈ r.allocatedElements)
    (blocks pool : ℕ) (p : SharedPool) :
    Mirrors (s.handOut element) (r.sharedInit options (successful blocks) pool p element) := by
  obtain ⟨e, he, -⟩ := h.made element hmade
  have halloc : (!e.initialized && options.onAlloc && !(successful blocks).allocated) = false :=
    Bool.and_false _
  have hinit : (options.onInit && !(successful blocks).initialized) = false := Bool.and_false _
  have hflag := (h.callback (!e.initialized && options.onAlloc) (.onAlloc element true)).flag
    element (fun e => { e with initialized := true, acquired := true }) fun _ => ⟨rfl, rfl⟩
  have hout := ((hflag.callback options.onInit (.onInit element true)).handOut element
    (fun e => { e with held := true }) fun _ he =>
      ⟨he.trans (Function.update_self ..), rfl⟩).call (.handOut element)
  have hsame : { s with acquired := Function.update s.acquired element true }.handOut element =
      s.handOut element := by
    unfold PoolMemory.handOut
    rw [Function.update_idem]
  unfold Pools.sharedInit
  rw [he]
  dsimp only
  rw [halloc, hinit, if_neg Bool.false_ne_true, if_neg Bool.false_ne_true, ← hsame]
  exact hout

theorem Mirrors.sharedCreate (h : Mirrors s r) (buffers : ℕ) :
    Mirrors (s.sharedCreate buffers) (r.sharedCreate s.shared.length buffers) := by
  have hnone : r.shared s.shared.length = none := by
    rw [h.shared, List.getElem?_eq_none (Nat.le_refl _)]
    rfl
  unfold PoolMemory.sharedCreate Pools.sharedCreate
  rw [hnone]
  refine { h with shared := fun pool => ?_ }
  change Function.update r.shared _ _ pool = _
  rw [Function.update_apply]
  split
  next heq =>
    rw [heq, List.getElem?_concat_length]
    rfl
  next hne =>
    rw [h.shared]
    rcases Nat.lt_or_ge pool s.shared.length with hlt | hge
    · rw [List.getElem?_append_left hlt]
    · rw [List.getElem?_eq_none hge, List.getElem?_eq_none]
      rw [List.length_append, List.length_singleton]
      omega

theorem Mirrors.held_of_notMem (h : Mirrors s r) (hhanded : element ∉ s.handed)
    {e : PoolElement} (he : r.elements element = some e) : e.held = false := by
  have hmem : element ∈ r.allocatedElements := by
    by_contra hnot
    exact absurd ((h.unmade element hnot).symm.trans he) nofun
  obtain ⟨e', he', -, hheld⟩ := h.made element hmem
  obtain rfl := Option.some.inj (he.symm.trans he')
  exact Bool.eq_false_iff.mpr fun hh => hhanded (hheld.mp hh)

theorem Mirrors.putBack (h : Mirrors s r) (hnodup : s.handed.Nodup) {pool : ℕ} {p : SharedArray}
    (hp : s.shared[pool]? = some p) (elements : List ℕ) :
    Mirrors ((s.takeBack element).setShared pool { p with elements := elements ++ [element] })
      (((r.callback options.onCleanup (.onCleanup element)).modifyElement element fun e =>
        { e with acquired := false, held := false }).setShared pool
          (some ⟨p.buffers, elements.map .element ++ [.element element]⟩)) := by
  have hset := ((h.callback options.onCleanup (.onCleanup element)).takeBack hnodup
    element).setShared hp (elements ++ [element])
  rwa [List.map_append] at hset

theorem Accounted.sharedElements {flight available allocated : List ℕ}
    (h : Accounted options s flight available allocated) {pool : ℕ} {p : SharedArray}
    (hp : s.shared[pool]? = some p) :
    p.elements.Nodup ∧ List.Disjoint p.elements available ∧ ∀ id ∈ p.elements, id ∈ allocated := by
  have hsublist : p.elements.Sublist s.arrays :=
    List.sublist_flatten_of_mem (List.mem_map_of_mem (List.mem_of_getElem? hp))
  obtain ⟨-, harrays, hdisjoint⟩ := List.nodup_append.mp h.nodup
  refine ⟨harrays.sublist hsublist, fun id hid havailable => ?_, fun id hid => ?_⟩
  · exact hdisjoint id (List.mem_append_right _ havailable) id (hsublist.subset hid) rfl
  · exact h.places.mem_iff.mpr (List.mem_append_right _ (hsublist.subset hid))

end Elements

section Calls

variable (h : Mirrors s r)
  (haccounted : Accounted options s [] r.availableElements r.allocatedElements)

include h haccounted

theorem Mirrors.acquireElements (nelements : ℕ) :
    ∃ elements s' r', s.acquireElements nelements = (s', elements) ∧
      r.acquireElements nelements = (r', elements) ∧ Mirrors s' r' ∧
      Accounted options s' elements r'.availableElements r'.allocatedElements := by
  have hs : s.acquireElements nelements =
      ({ s with available := s.available.unlink (r.availableElements.take nelements) },
        r.availableElements.take nelements) := by
    unfold PoolMemory.acquireElements
    rw [ElementList.collect_eq h.available]
  have hunlink := h.available.unlink
    (h.available.linked.nodup.sublist (List.take_sublist nelements _))
    fun t ht => List.mem_of_mem_take ht
  rw [ElementList.diff_take] at hunlink
  have hmirrors : Mirrors
      { s with available := s.available.unlink (r.availableElements.take nelements) }
      (r.acquireElements nelements).1 := { h with available := hunlink }
  have haccounts := (haccounted.acquireElements nelements).2
  rw [List.append_nil, hs] at haccounts
  exact ⟨_, _, _, hs, rfl, hmirrors, hmirrors.accounted haccounts⟩

theorem Mirrors.allocateElements (nelements blocks : ℕ) :
    ∃ elements s' r', s.allocateElements options nelements blocks = (s', elements) ∧
      r.allocateElements options nelements blocks = (r', elements) ∧ Mirrors s' r' ∧
      Accounted options s' elements r'.availableElements r'.allocatedElements := by
  have haccounts := haccounted.allocateElements nelements blocks
  unfold PoolMemory.allocateElements Pools.allocateElements at *
  rw [← h.allocated.size, h.nextElement]
  dsimp only at *
  generalize min _ blocks = count at *
  have hnew : ∀ id ∈ List.range' s.nextElement count, s.nextElement ≤ id := fun id hid =>
    (List.mem_range'_1.mp hid).1
  have hdisjoint : List.Disjoint (List.range' s.nextElement count) r.allocatedElements :=
    fun id hid hmem => (haccounted.notMem (hnew id hid)).1 hmem
  rw [List.append_nil] at haccounts
  refine ⟨_, _, _, rfl, rfl, { h with
    available := h.available.zero fun id hid hmem => (haccounted.notMem (hnew id hid)).2.1 hmem
    allocated := (h.allocated.zero hdisjoint).link List.nodup_range' hdisjoint
    nextElement := rfl
    unmade := fun id hid => ?_
    made := fun id hid => ?_ }, haccounts⟩
  · rw [List.mem_append, not_or] at hid
    exact (if_neg hid.1).trans (h.unmade id hid.2)
  · by_cases hmem : id ∈ List.range' s.nextElement count
    · exact ⟨_, if_pos hmem, (if_pos hmem).symm,
        iff_of_false Bool.false_ne_true (haccounted.notMem (hnew id hmem)).2.2⟩
    · obtain ⟨e, he, hacquired, hheld⟩ := h.made id ((List.mem_append.mp hid).resolve_left hmem)
      exact ⟨e, (if_neg hmem).trans he, hacquired.trans (if_neg hmem).symm, hheld⟩

theorem Mirrors.rootAcquire (blocks : ℕ) :
    Mirrors (s.rootAcquire options blocks).1 (r.rootAcquire options (successful blocks)) := by
  obtain ⟨elements, s₁, r₁, hs, hr, hacquired, haccounts⟩ := h.acquireElements haccounted 1
  unfold PoolMemory.rootAcquire Pools.rootAcquire
  rw [hs, hr]
  cases elements with
  | cons id rest => exact hacquired.rootInit haccounts blocks
  | nil =>
      obtain ⟨elements, s₂, r₂, hs, hr, hallocated, haccounts⟩ :=
        hacquired.allocateElements haccounts 1 blocks
      have hblocks : (successful blocks).blocks = blocks := rfl
      dsimp only
      rw [if_pos rfl, hblocks, hs, hr]
      cases elements with
      | nil => exact hallocated
      | cons id rest =>
          have hsuccess : (options.onAlloc && !(successful blocks).allocated) = false :=
            Bool.and_false _
          have hwritten : Mirrors s₂ ((r₂.callback options.onAlloc (.onAlloc id true)).modifyElement
              id fun e => { e with initialized := true }) :=
            (hallocated.callback _ _).modifyElement (fun _ _ => ⟨rfl, Iff.rfl⟩)
              fun _ hacquired hheld => ⟨hacquired, hheld⟩
          dsimp only
          rw [hsuccess, if_neg Bool.false_ne_true]
          exact hwritten.rootInit (hwritten.accounted haccounts) blocks

theorem Mirrors.element_of_handed (hhanded : element ∈ s.handed) :
    ∃ e, r.elements element = some e ∧ e.held = true ∧ e.acquired = true := by
  have hmem : element ∈ r.allocatedElements := by
    rw [haccounted.places.mem_iff]
    simp [hhanded]
  obtain ⟨e, he, hacquired, hheld⟩ := h.made element hmem
  exact ⟨e, he, hheld.mpr hhanded, hacquired.trans (haccounted.acquired element hhanded)⟩

theorem Mirrors.rootRelease (element : ℕ) :
    Mirrors (s.rootRelease options element) (r.rootRelease options element) := by
  unfold PoolMemory.rootRelease Pools.rootRelease
  by_cases hhanded : element ∈ s.handed
  · obtain ⟨e, he, hheld, hacquired⟩ := h.element_of_handed haccounted hhanded
    rw [if_neg (not_not.mpr hhanded), haccounted.acquired element hhanded, he]
    dsimp only
    rw [hheld, hacquired, Bool.not_true, if_neg Bool.false_ne_true, if_neg Bool.false_ne_true,
      if_neg Bool.false_ne_true]
    have htaken := (h.callback options.onCleanup (.onCleanup element)).takeBack
      haccounted.handed_nodup element
    have haccounts := htaken.accounted (haccounted.takeBack hhanded)
    refine htaken.releaseElements (List.nodup_singleton element) ?_ ?_
    · rw [List.singleton_disjoint]
      exact haccounts.inFlight.2
    · rintro id hid
      rw [List.mem_singleton.mp hid]
      exact mem_allocated_of_flight haccounts List.mem_cons_self
  · rw [if_pos hhanded]
    cases he : r.elements element with
    | none => exact h
    | some e =>
        dsimp only
        rw [h.held_of_notMem hhanded he, Bool.not_false, if_pos rfl]
        exact h

theorem Mirrors.sharedRefill (p : SharedArray) (blocks : ℕ) :
    ∃ r', r.sharedRefill options (successful blocks) ⟨p.buffers, p.elements.map .element⟩ =
        (r', (s.sharedRefill options p blocks).2.map .element) ∧
      Mirrors (s.sharedRefill options p blocks).1 r' := by
  have hblocks : (successful blocks).blocks = blocks := rfl
  unfold PoolMemory.sharedRefill Pools.sharedRefill
  dsimp only
  rw [hblocks]
  by_cases hempty : p.elements = []
  · obtain ⟨elements, s₁, r₁, hs, hr, hacquired, haccounts⟩ :=
      h.acquireElements haccounted p.buffers
    rw [if_pos hempty, if_neg (by rw [hempty]; exact not_not.mpr rfl), hs, hr]
    cases elements with
    | nil =>
        obtain ⟨elements, s₂, r₂, hs, hr, hallocated, -⟩ :=
          hacquired.allocateElements haccounts p.buffers blocks
        dsimp only
        rw [if_pos rfl, hs, hr]
        exact ⟨r₂, rfl, hallocated⟩
    | cons id rest => exact ⟨r₁, rfl, hacquired⟩
  · rw [if_neg hempty, if_pos (mt List.map_eq_nil_iff.mp hempty)]
    dsimp only
    rw [if_neg hempty]
    exact ⟨r, rfl, h⟩

theorem Mirrors.sharedAcquire (pool blocks : ℕ) :
    Mirrors (s.sharedAcquire options pool blocks).1
      (r.sharedAcquire options (successful blocks) pool) := by
  unfold PoolMemory.sharedAcquire Pools.sharedAcquire
  rw [h.shared]
  cases hp : s.shared[pool]? with
  | none => exact h
  | some p =>
      obtain ⟨r', hrefill, hmirrors⟩ := h.sharedRefill haccounted p blocks
      obtain ⟨s', elements, flight, available', allocated', heq, haccounts, hperm, -, -, hshared⟩ :=
        haccounted.sharedRefill hp blocks
      rw [heq] at hrefill hmirrors
      rw [← hshared] at hp
      have haccounts := hmirrors.accounted haccounts
      have hset := hmirrors.setShared hp elements.dropLast
      rw [Option.map_some]
      dsimp only
      rw [heq, hrefill]
      dsimp only
      rw [List.getLast?_map, ← List.map_dropLast]
      cases hlast : elements.getLast? with
      | none => exact hset
      | some id =>
          refine hset.sharedInit (haccounts.places.mem_iff.mpr ?_) blocks pool _
          rcases List.mem_append.mp (hperm.mem_iff.mp (List.mem_of_getLast? hlast)) with hid | hid
          · simp [hid]
          · exact List.mem_append_right _ (List.mem_flatten.mpr
              ⟨p.elements, List.mem_map_of_mem (List.mem_of_getElem? hp), hid⟩)

theorem Mirrors.sharedRelease (pool element : ℕ) :
    Mirrors (s.sharedRelease options pool element) (r.sharedRelease options pool element) := by
  unfold PoolMemory.sharedRelease Pools.sharedRelease
  rw [h.shared]
  cases hp : s.shared[pool]? with
  | none => exact h
  | some p =>
      rw [Option.map_some]
      dsimp only
      by_cases hhanded : element ∈ s.handed
      · obtain ⟨e, he, hheld, hacquired⟩ := h.element_of_handed haccounted hhanded
        rw [if_neg (not_not.mpr hhanded), haccounted.acquired element hhanded, he]
        dsimp only
        rw [hheld, hacquired, Bool.not_true, if_neg Bool.false_ne_true, if_neg Bool.false_ne_true,
          if_neg Bool.false_ne_true, List.length_map]
        by_cases hfull : p.elements.length = 2 * p.buffers
        · rw [if_pos hfull, if_pos hfull, if_pos hfull, ← List.map_drop, ← List.map_take]
          obtain ⟨hnodup, hdisjoint, hmem⟩ := haccounted.sharedElements hp
          have hhalf : (p.elements.drop p.buffers).take p.buffers = p.elements.drop p.buffers := by
            refine List.take_of_length_le ?_
            rw [List.length_drop]
            omega
          have hreleased : Mirrors (s.releaseElements options (p.elements.drop p.buffers))
              (r.releaseSlots options ((p.elements.drop p.buffers).map .element)) := by
            unfold Pools.releaseSlots
            rw [Pools.slotElements_map, List.length_map, if_neg (not_not.mpr rfl)]
            exact h.releaseElements (hnodup.sublist (List.drop_sublist ..))
              (fun id hid => hdisjoint (List.mem_of_mem_drop hid))
              fun id hid => hmem id (List.mem_of_mem_drop hid)
          rw [hhalf]
          exact hreleased.putBack haccounted.handed_nodup hp _
        · rw [if_neg hfull, if_neg hfull, if_neg hfull]
          exact h.putBack haccounted.handed_nodup hp _
      · rw [if_pos hhanded]
        cases he : r.elements element with
        | none => exact h
        | some e =>
            dsimp only
            rw [h.held_of_notMem hhanded he, Bool.not_false, if_pos rfl]
            exact h

end Calls

section Runs

/-- The call of `Pools` that a call of `PoolMemory` stands for. -/
def mirrored (s : PoolMemory) : PoolUse → PoolEvent
  | .rootAcquire blocks => .rootAcquire (successful blocks)
  | .rootRelease element => .rootRelease element
  | .sharedCreate buffers => .sharedCreate s.shared.length buffers
  | .sharedAcquire pool blocks => .sharedAcquire pool (successful blocks)
  | .sharedRelease pool element => .sharedRelease pool element

theorem Mirrors.step (h : Mirrors s r) (hkept : Kept options s) (use : PoolUse) :
    Mirrors (s.step options use).1 (r.step options (s.mirrored use)) := by
  obtain ⟨available, allocated, haccounted⟩ := hkept
  have haccounted := h.accounted haccounted
  unfold Pools.step
  rw [h.destroyed, h.fault, Option.isSome_none, Bool.or_false, if_neg Bool.false_ne_true]
  cases use with
  | rootAcquire blocks => exact h.rootAcquire haccounted blocks
  | rootRelease element => exact h.rootRelease haccounted element
  | sharedCreate buffers => exact h.sharedCreate buffers
  | sharedAcquire pool blocks => exact h.sharedAcquire haccounted pool blocks
  | sharedRelease pool element => exact h.sharedRelease haccounted pool element

/-- Every run of the pool in memory is a run of `Pools`, and the accounts are those of its lists. -/
theorem mirrors_run (options : PoolOptions) (uses : List PoolUse) :
    ∃ events, Mirrors (run (next (step options)) create uses)
        (run (Pools.step options) Pools.create events) ∧
      Accounted options (run (next (step options)) create uses) []
        (run (Pools.step options) Pools.create events).availableElements
        (run (Pools.step options) Pools.create events).allocatedElements := by
  have hrun : ∀ (uses : List PoolUse) (s : PoolMemory) (r : Pools), Mirrors s r → Kept options s →
      ∃ events, Mirrors (run (next (step options)) s uses) (run (Pools.step options) r events) ∧
        Kept options (run (next (step options)) s uses) := by
    intro uses
    induction uses with
    | nil => exact fun s r h hkept => ⟨[], h, hkept⟩
    | cons use uses ih =>
        intro s r h hkept
        obtain ⟨events, hrest⟩ := ih _ _ (h.step hkept use) (hkept.step use).1
        exact ⟨s.mirrored use :: events, hrest⟩
  obtain ⟨events, hmirrors, available, allocated, haccounted⟩ :=
    hrun uses create Pools.create mirrors_create ⟨[], [], accounted_create options⟩
  exact ⟨events, hmirrors, hmirrors.accounted haccounted⟩

end Runs

end PoolMemory

end Utils

end PomeloUdp
