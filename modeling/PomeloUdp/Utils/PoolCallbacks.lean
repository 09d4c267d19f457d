import PomeloUdp.Utils.Pool

/-!
# The callback protocol of the pools

An element that a user gets has been initialized by `on_alloc`, and one that has been
initialized is handed to `on_free` once before its memory is freed. `record` follows the
trace of the pools and `Permitted` says what may happen next; `protocol_run` says for
which runs the pools keep to it.

They do not in general. `pomelo_pool_root_acquire` does not look at the flag of an element
that it takes from the list of available ones, where a shared pool leaves elements without
it; `pomelo_pool_release_elements` frees what the list does not take without `on_free`; and
a shared pool puts the pointer to the data into its array when a callback fails.
-/

namespace PomeloUdp

namespace Utils

open Machine

/-- What is known of the elements: how often `on_free` has been called since the last
`on_alloc` that succeeded, if one has since the memory was allocated. -/
abbrev PoolLife := ℕ → Option ℕ

namespace PoolCall

/-- What a call changes. -/
def record (life : PoolLife) : PoolCall → PoolLife
  | .malloc id => Function.update life id none
  | .onAlloc id true => Function.update life id (some 0)
  | .onFree id => Function.update life id ((life id).map (· + 1))
  | _ => life

/-- An element is initialized or returned to a user behind its `on_alloc`, and freed behind
one `on_free` if there was an `on_alloc`. -/
def Permitted (options : PoolOptions) (life : PoolLife) : PoolCall → Prop
  | .onInit id _ | .handOut id => options.onAlloc = true → life id = some 0
  | .free id =>
      options.onAlloc = true → options.onFree = true → life id = none ∨ life id = some 1
  | _ => True

instance (options : PoolOptions) (life : PoolLife) (c : PoolCall) :
    Decidable (Permitted options life c) := by
  cases c <;> unfold Permitted <;> infer_instance

/-- What is known behind a trace. -/
def life (calls : List PoolCall) : PoolLife := run record (fun _ => none) calls

/-- Everything in the trace is permitted where it happens. -/
def Disciplined (options : PoolOptions) (calls : List PoolCall) : Prop :=
  Along record (Permitted options) (fun _ => none) calls

instance (options : PoolOptions) (calls : List PoolCall) : Decidable (Disciplined options calls) :=
  decidableAlong ..

variable {options : PoolOptions} {calls cs : List PoolCall}

theorem life_append (calls cs : List PoolCall) : life (calls ++ cs) = run record (life calls) cs :=
  run_append ..

theorem disciplined_append :
    Disciplined options (calls ++ cs) ↔
      Disciplined options calls ∧ Along record (Permitted options) (life calls) cs :=
  along_append ..

theorem run_malloc (life : PoolLife) (ids : List ℕ) (id : ℕ) :
    run record life (ids.map .malloc) id = if id ∈ ids then none else life id := by
  induction ids generalizing life with
  | nil => rfl
  | cons first ids ih =>
      rw [List.map_cons, run_cons, ih]
      by_cases hid : id = first
      · simp [record, hid]
      · simp [record, hid]

theorem along_malloc (options : PoolOptions) (life : PoolLife) (ids : List ℕ) :
    Along record (Permitted options) life (ids.map .malloc) := by
  induction ids generalizing life with
  | nil => trivial
  | cons id ids ih => exact ⟨trivial, ih _⟩

theorem run_free (life : PoolLife) (ids : List ℕ) : run record life (ids.map .free) = life := by
  induction ids with
  | nil => rfl
  | cons id ids ih => exact ih

theorem along_free {life : PoolLife} {ids : List ℕ}
    (h : ∀ id ∈ ids, Permitted options life (.free id)) :
    Along record (Permitted options) life (ids.map .free) := by
  induction ids with
  | nil => trivial
  | cons id ids ih =>
      exact ⟨h id List.mem_cons_self, ih fun id' hid' => h id' (List.mem_cons_of_mem _ hid')⟩

theorem disciplined_of_not_onAlloc (h : options.onAlloc = false) (calls : List PoolCall) :
    Disciplined options calls := by
  unfold Disciplined
  generalize (fun _ => none : PoolLife) = life
  induction calls generalizing life with
  | nil => trivial
  | cons c calls ih =>
      refine ⟨?_, ih _⟩
      cases c <;> simp [Permitted, h]

end PoolCall

open PoolCall

namespace Pools

variable {options : PoolOptions} {s s' : Pools} {id : ℕ} {e : PoolElement}

section Conditions

/-- What the list of available elements does not take has not been initialized. -/
def FreesRaw (options : PoolOptions) (s : Pools) (ids : List ℕ) : Prop :=
  options.onAlloc = true → options.onFree = true →
    ∀ id ∈ ids.drop (s.nrelease options ids.length), ∀ e ∈ s.elements id, e.initialized = false

instance (options : PoolOptions) (s : Pools) (ids : List ℕ) : Decidable (s.FreesRaw options ids) :=
  inferInstanceAs (Decidable (_ → _ → ∀ id ∈ ids.drop _, ∀ e ∈ s.elements id, _))

/-- A part of an array that is returned to the root pool has no pointer to data, and what is
freed of it has not been initialized. -/
def Returns (options : PoolOptions) (s : Pools) (slots : List PoolSlot) : Prop :=
  (slotElements slots).length = slots.length ∧ s.FreesRaw options (slotElements slots)

instance (options : PoolOptions) (s : Pools) (slots : List PoolSlot) :
    Decidable (s.Returns options slots) :=
  inferInstanceAs (Decidable (_ ∧ _))

/-- The root pool takes an initialized element or allocates one, a shared pool takes no
pointer to data, and what is returned to the root pool are elements that its list takes or
that are not initialized. -/
def Careful (options : PoolOptions) (s : Pools) : PoolEvent → Prop
  | .rootAcquire _ => options.onAlloc = true →
      ∀ id ∈ s.availableElements.head?, ∀ e ∈ s.elements id, e.initialized = true
  | .rootRelease id => ∀ e ∈ s.elements id, e.held = true → s.FreesRaw options [id]
  | .sharedAcquire pool _ => ∀ p ∈ s.shared pool, ∀ slot ∈ p.elements.getLast?,
      slotElements [slot] ≠ []
  | .sharedRelease pool id => ∀ e ∈ s.elements id, e.held = true → ∀ p ∈ s.shared pool,
      p.elements.length = 2 * p.buffers → s.Returns options (p.elements.drop p.buffers)
  | .sharedDestroy pool => ∀ p ∈ s.shared pool, s.Returns options p.elements
  | .rootDestroy | .sharedCreate .. => True

instance (options : PoolOptions) (s : Pools) (event : PoolEvent) :
    Decidable (s.Careful options event) := by
  cases event <;> unfold Careful <;> infer_instance

end Conditions

section Equations

theorem callback_eq (s : Pools) (set : Bool) (c : PoolCall) :
    s.callback set c = { s with calls := s.calls ++ if set then [c] else [] } := by
  unfold callback call
  cases set <;> simp

theorem elements_allocateElements (options : PoolOptions) (s : Pools) (nelements blocks id : ℕ) :
    (s.allocateElements options nelements blocks).1.elements id =
      if id ∈ (s.allocateElements options nelements blocks).2 then some ⟨false, false, false⟩
      else s.elements id :=
  rfl

theorem nrelease_one (hroom : 0 < options.availableMax →
    s.availableElements.length < options.availableMax) : s.nrelease options 1 = 1 := by
  unfold nrelease
  rw [if_neg]
  rintro ⟨hmax, hfull⟩
  exact absurd (hroom hmax) (by omega)

theorem freesRaw_one (hroom : 0 < options.availableMax →
    s.availableElements.length < options.availableMax) (id : ℕ) : s.FreesRaw options [id] := by
  intro _ _ id' hid'
  rw [List.length_singleton, nrelease_one hroom] at hid'
  cases hid'

theorem mem_slotElements {slots : List PoolSlot} {id : ℕ} :
    id ∈ slotElements slots ↔ .element id ∈ slots := by
  simp only [slotElements, List.mem_filterMap]
  constructor
  · rintro ⟨slot, hslot, heq⟩
    cases slot with
    | element id' =>
        obtain rfl := Option.some.inj heq
        exact hslot
    | data id' => cases heq
  · exact fun h => ⟨_, h, rfl⟩

theorem slotElements_append (slots slots' : List PoolSlot) :
    slotElements (slots ++ slots') = slotElements slots ++ slotElements slots' :=
  List.filterMap_append

theorem slotElements_map (ids : List ℕ) : slotElements (ids.map .element) = ids := by
  simp [slotElements, List.filterMap_map]

end Equations

section Recorded

/-- The flag of every element says what the trace knows of it. -/
structure Recorded (options : PoolOptions) (s : Pools) : Prop where
  disciplined : Disciplined options s.calls
  life : ∀ id e, s.elements id = some e → life s.calls id = if e.initialized then some 0 else none

theorem recorded_create (options : PoolOptions) : Recorded options create where
  disciplined := trivial
  life _ _ h := nomatch h

theorem Recorded.kept (h : Recorded options s) (helements : s'.elements = s.elements)
    (hcalls : s'.calls = s.calls) : Recorded options s' where
  disciplined := hcalls ▸ h.disciplined
  life := by
    rw [helements, hcalls]
    exact h.life

theorem Recorded.append (h : Recorded options s) (cs : List PoolCall)
    (hcalls : s'.calls = s.calls ++ cs)
    (hpermitted : Along record (Permitted options) (PoolCall.life s.calls) cs)
    (hlife : ∀ id e, s'.elements id = some e →
      run record (PoolCall.life s.calls) cs id = if e.initialized then some 0 else none) :
    Recorded options s' where
  disciplined := by
    rw [hcalls, disciplined_append]
    exact ⟨h.disciplined, hpermitted⟩
  life id e he := by
    rw [hcalls, life_append]
    exact hlife id e he

theorem Recorded.callback (h : Recorded options s) (set : Bool) {c : PoolCall}
    (hpermitted : Permitted options (PoolCall.life s.calls) c)
    (hquiet : record (PoolCall.life s.calls) c = PoolCall.life s.calls) :
    Recorded options (s.callback set c) := by
  cases set with
  | false => exact h
  | true =>
      change Recorded options (s.call c)
      refine h.append [c] rfl ⟨hpermitted, trivial⟩ fun id e he => ?_
      rw [run_cons, run_nil, hquiet]
      exact h.life id e he

theorem Recorded.modifyElement (h : Recorded options s) (id : ℕ) {f : PoolElement → PoolElement}
    (hf : ∀ e, (f e).initialized = e.initialized) : Recorded options (s.modifyElement id f) := by
  refine ⟨h.disciplined, fun id' e he => ?_⟩
  change PoolCall.life s.calls id' = _
  by_cases hid : id' = id
  · subst hid
    simp only [Pools.modifyElement, Function.update_self] at he
    obtain ⟨e', he', rfl⟩ := Option.map_eq_some_iff.mp he
    rw [hf]
    exact h.life id' e' he'
  · simp only [Pools.modifyElement, Function.update_of_ne hid] at he
    exact h.life id' e he

theorem Recorded.permitted (h : Recorded options s) (he : s.elements id = some e)
    (hinitialized : e.initialized = true) : PoolCall.life s.calls id = some 0 := by
  rw [h.life id e he, hinitialized]
  rfl

theorem Recorded.failed (h : Recorded options s) (he : s.elements id = some e)
    (hraw : e.initialized = false) :
    Recorded options ((s.call (.onAlloc id false)).callback options.onFree (.onFree id)) := by
  have hnone : PoolCall.life s.calls id = none := by
    rw [h.life id e he, hraw]
    rfl
  have hcall : Recorded options (s.call (.onAlloc id false)) :=
    h.append _ rfl ⟨trivial, trivial⟩ h.life
  have hsame : PoolCall.life (s.call (.onAlloc id false)).calls = PoolCall.life s.calls :=
    life_append ..
  refine hcall.callback _ trivial ?_
  rw [hsame, record, hnone]
  exact Function.update_eq_self_iff.mpr hnone.symm

theorem Recorded.initialized (h : Recorded options s) (hset : options.onAlloc = true) (id : ℕ)
    {f : PoolElement → PoolElement} (hf : ∀ e, (f e).initialized = true) :
    Recorded options
      ((s.callback options.onAlloc (.onAlloc id true)).modifyElement id f) := by
  rw [hset]
  refine h.append [.onAlloc id true] rfl ⟨trivial, trivial⟩ fun id' e he => ?_
  rw [run_cons, run_nil]
  by_cases hid : id' = id
  · subst hid
    simp only [Pools.modifyElement, Function.update_self] at he
    obtain ⟨e', -, rfl⟩ := Option.map_eq_some_iff.mp he
    rw [hf, record, Function.update_self]
    rfl
  · simp only [Pools.modifyElement, Function.update_of_ne hid] at he
    rw [record, Function.update_of_ne hid]
    exact h.life id' e he

theorem Recorded.allocateElements (h : Recorded options s) (nelements blocks : ℕ) :
    Recorded options (s.allocateElements options nelements blocks).1 := by
  refine h.append ((s.allocateElements options nelements blocks).2.map .malloc) rfl
    (along_malloc ..) fun id e he => ?_
  rw [run_malloc]
  by_cases hid : id ∈ (s.allocateElements options nelements blocks).2
  · rw [elements_allocateElements, if_pos hid] at he
    rw [if_pos hid, ← Option.some.inj he]
    rfl
  · rw [elements_allocateElements, if_neg hid] at he
    rw [if_neg hid]
    exact h.life id e he

theorem Recorded.releaseElements (h : Recorded options s) (hset : options.onAlloc = true)
    {ids : List ℕ} (hlive : ∀ id ∈ ids, (s.elements id).isSome = true)
    (hraw : s.FreesRaw options ids) : Recorded options (s.releaseElements options ids) := by
  refine h.append _ rfl (along_free fun id hid _ hfree => .inl ?_) fun id e he => ?_
  · obtain ⟨e, he⟩ := Option.isSome_iff_exists.mp (hlive id (List.mem_of_mem_drop hid))
    rw [h.life id e he, hraw hset hfree id hid e he]
    rfl
  · rw [run_free]
    simp only [Pools.releaseElements] at he
    split at he
    · cases he
    · exact h.life id e he

end Recorded

section Placed

/-- The list, the array or the hand that an element is in. -/
inductive Place where
  | root
  | shared (pool : ℕ)
  | user

/-- Every block is in one place, the ones that users have in none of the pools. -/
structure Placed (options : PoolOptions) (place : ℕ → Place) (s : Pools) : Prop where
  allocated_nodup : s.allocatedElements.Nodup
  allocated : ∀ id, id ∈ s.allocatedElements ↔ (s.elements id).isSome = true
  fresh : ∀ id, (s.elements id).isSome = true → id < s.nextElement
  held : ∀ id e, s.elements id = some e → e.held = true → e.acquired = true ∧ place id = .user
  limit : 0 < options.availableMax → s.availableElements.length ≤ options.availableMax
  available_nodup : s.availableElements.Nodup
  available : ∀ id ∈ s.availableElements, (s.elements id).isSome = true ∧ place id = .root
  slots_nodup : ∀ pool p, s.shared pool = some p → (slotElements p.elements).Nodup
  slots : ∀ pool p, s.shared pool = some p → ∀ id ∈ slotElements p.elements,
    (s.elements id).isSome = true ∧ place id = .shared pool

/-- The element is in the hands of a call. -/
def Free (place : ℕ → Place) (s : Pools) (id : ℕ) : Prop :=
  place id = .user ∧ ∃ e, s.elements id = some e ∧ e.held = false

variable {place : ℕ → Place}

theorem placed_create (options : PoolOptions) : Placed options (fun _ => .user) create where
  allocated_nodup := List.nodup_nil
  allocated _ := ⟨nofun, nofun⟩
  fresh _ h := nomatch h
  held _ _ h := nomatch h
  limit _ := Nat.zero_le _
  available_nodup := List.nodup_nil
  available _ h := nomatch h
  slots_nodup _ _ h := nomatch h
  slots _ _ h := nomatch h

theorem Free.isSome (h : Free place s id) : (s.elements id).isSome = true := by
  obtain ⟨-, e, he, -⟩ := h
  rw [he]
  rfl

theorem Placed.callback (h : Placed options place s) (set : Bool) (c : PoolCall) :
    Placed options place (s.callback set c) := by
  cases set <;> exact { h with }

theorem Placed.call (h : Placed options place s) (c : PoolCall) :
    Placed options place (s.call c) := { h with }

theorem Placed.modifyElement (h : Placed options place s) (hplace : place id = .user)
    {f : PoolElement → PoolElement}
    (hf : ∀ e, s.elements id = some e → (f e).held = true → (f e).acquired = true) :
    Placed options place (s.modifyElement id f) := by
  have hisSome : ∀ id', ((s.modifyElement id f).elements id').isSome =
      (s.elements id').isSome := by
    intro id'
    by_cases hid : id' = id
    · simp [Pools.modifyElement, hid]
    · simp [Pools.modifyElement, Function.update_of_ne hid]
  refine { h with
    allocated := fun id' => by rw [hisSome]; exact h.allocated id'
    fresh := fun id' => by rw [hisSome]; exact h.fresh id'
    held := fun id' e he hheld => ?_
    available := fun id' => by rw [hisSome]; exact h.available id'
    slots := fun pool p hp id' => by rw [hisSome]; exact h.slots pool p hp id' }
  by_cases hid : id' = id
  · subst hid
    simp only [Pools.modifyElement, Function.update_self] at he
    obtain ⟨e', he', rfl⟩ := Option.map_eq_some_iff.mp he
    exact ⟨hf e' he' hheld, hplace⟩
  · simp only [Pools.modifyElement, Function.update_of_ne hid] at he
    exact h.held id' e he hheld

theorem Placed.acquireElements (h : Placed options place s) (nelements : ℕ) :
    ∃ place', Placed options place' (s.acquireElements nelements).1 ∧
      (s.acquireElements nelements).2.Nodup ∧
      ∀ id ∈ (s.acquireElements nelements).2,
        Free place' (s.acquireElements nelements).1 id := by
  have hdisjoint := List.disjoint_take_drop h.available_nodup (Nat.le_refl nelements)
  have hother : ∀ id, place id ≠ .root → id ∉ s.availableElements.take nelements :=
    fun id hplace hid => hplace (h.available id (List.mem_of_mem_take hid)).2
  refine ⟨fun id => if id ∈ s.availableElements.take nelements then .user else place id, ?_,
    h.available_nodup.sublist (List.take_sublist ..), fun id hid => ⟨if_pos hid, ?_⟩⟩
  · refine { h with
      held := fun id e he hheld => ?_
      limit := fun hmax => ?_
      available_nodup := h.available_nodup.sublist (List.drop_sublist ..)
      available := fun id hid => ?_
      slots := fun pool p hp id hid => ?_ }
    · obtain ⟨hacquired, hplace⟩ := h.held id e he hheld
      refine ⟨hacquired, ?_⟩
      split
      · rfl
      · exact hplace
    · refine Nat.le_trans ?_ (h.limit hmax)
      exact (List.drop_sublist ..).length_le
    · obtain ⟨hsome, hplace⟩ := h.available id (List.mem_of_mem_drop hid)
      exact ⟨hsome, (if_neg fun hmem => hdisjoint hmem hid).trans hplace⟩
    · obtain ⟨hsome, hplace⟩ := h.slots pool p hp id hid
      exact ⟨hsome, (if_neg (hother id (by rw [hplace]; nofun))).trans hplace⟩
  · obtain ⟨hsome, hplace⟩ := h.available id (List.mem_of_mem_take hid)
    obtain ⟨e, he⟩ := Option.isSome_iff_exists.mp hsome
    refine ⟨e, he, ?_⟩
    cases hheld : e.held with
    | false => rfl
    | true => exact absurd (hplace.symm.trans (h.held id e he hheld).2) nofun

/-- New blocks are in the hands of the call. -/
theorem Placed.allocateElements (h : Placed options place s) (nelements blocks : ℕ) :
    ∃ place', Placed options place' (s.allocateElements options nelements blocks).1 ∧
      (s.allocateElements options nelements blocks).2.Nodup ∧
      ∀ id ∈ (s.allocateElements options nelements blocks).2,
        Free place' (s.allocateElements options nelements blocks).1 id ∧
          (s.allocateElements options nelements blocks).1.elements id =
            some ⟨false, false, false⟩ := by
  set ids := (s.allocateElements options nelements blocks).2 with hids
  obtain ⟨count, hcount, hnext⟩ : ∃ count, ids = List.range' s.nextElement count ∧
      (s.allocateElements options nelements blocks).1.nextElement = s.nextElement + count :=
    ⟨_, rfl, rfl⟩
  have hfresh : ∀ id ∈ ids, s.elements id = none := by
    intro id hid
    rw [hcount, List.mem_range'_1] at hid
    by_contra hsome
    exact absurd (h.fresh id (Option.isSome_iff_ne_none.mpr hsome)) (by omega)
  have hold : ∀ id, (s.elements id).isSome = true → id ∉ ids := fun id hsome hid => by
    rw [hfresh id hid] at hsome
    cases hsome
  have hnodup : ids.Nodup := by
    rw [hcount]
    exact List.nodup_range'
  have helements : ∀ id, (s.elements id).isSome = true →
      (s.allocateElements options nelements blocks).1.elements id = s.elements id := fun id hsome =>
    if_neg (hold id hsome)
  have hnew : ∀ id ∈ ids, (s.allocateElements options nelements blocks).1.elements id =
      some ⟨false, false, false⟩ := fun id hid => if_pos hid
  refine ⟨fun id => if id ∈ ids then .user else place id, ?_, hnodup,
    fun id hid => ⟨⟨if_pos hid, _, hnew id hid, rfl⟩, hnew id hid⟩⟩
  refine { h with
    allocated_nodup := ?_
    allocated := fun id => ?_
    fresh := fun id hsome => ?_
    held := fun id e he hheld => ?_
    available := fun id hid => ?_
    slots := fun pool p hp id hid => ?_ }
  · refine List.nodup_append.mpr ⟨hnodup, h.allocated_nodup, fun id hid id' hid' heq => ?_⟩
    exact hold id' ((h.allocated id').mp hid') (heq ▸ hid)
  · change id ∈ ids ++ s.allocatedElements ↔ _
    rw [List.mem_append, h.allocated id]
    by_cases hid : id ∈ ids
    · rw [hnew id hid]
      exact iff_of_true (.inl hid) rfl
    · rw [show (s.allocateElements options nelements blocks).1.elements id = s.elements id from
        if_neg hid]
      exact or_iff_right hid
  · rw [hnext]
    by_cases hid : id ∈ ids
    · rw [hcount, List.mem_range'_1] at hid
      exact hid.2
    · rw [show (s.allocateElements options nelements blocks).1.elements id = s.elements id from
        if_neg hid] at hsome
      exact Nat.lt_add_right _ (h.fresh id hsome)
  · by_cases hid : id ∈ ids
    · rw [hnew id hid] at he
      rw [← Option.some.inj he] at hheld
      cases hheld
    · rw [show (s.allocateElements options nelements blocks).1.elements id = s.elements id from
        if_neg hid] at he
      rw [if_neg hid]
      exact h.held id e he hheld
  · obtain ⟨hsome, hplace⟩ := h.available id hid
    rw [helements id hsome]
    exact ⟨hsome, (if_neg (hold id hsome)).trans hplace⟩
  · obtain ⟨hsome, hplace⟩ := h.slots pool p hp id hid
    rw [helements id hsome]
    exact ⟨hsome, (if_neg (hold id hsome)).trans hplace⟩

/-- Elements in the hands of a call are returned to the root pool. -/
theorem Placed.releaseElements (h : Placed options place s) {ids : List ℕ} (hnodup : ids.Nodup)
    (hfree : ∀ id ∈ ids, Free place s id) :
    ∃ place', Placed options place' (s.releaseElements options ids) ∧
      ∀ id, id ∉ ids → place' id = place id := by
  set n := s.nrelease options ids.length with hn
  have hlisted : ∀ id, place id ≠ .user → id ∉ ids := fun id hplace hid =>
    hplace (hfree id hid).1
  have htaken : ∀ id, id ∈ ids.take n → id ∉ ids.drop n := fun id hid =>
    List.disjoint_take_drop hnodup (Nat.le_refl n) hid
  have helements : ∀ id, id ∉ ids.drop n →
      (s.releaseElements options ids).elements id = s.elements id := fun id hid => if_neg hid
  have hfreed : ∀ id ∈ ids.drop n, (s.releaseElements options ids).elements id = none :=
    fun id hid => if_pos hid
  have hkept : ∀ id, place id ≠ .user →
      (s.releaseElements options ids).elements id = s.elements id := fun id hplace =>
    helements id fun hid => hlisted id hplace (List.mem_of_mem_drop hid)
  refine ⟨fun id => if id ∈ ids.take n then .root else place id, ?_, fun id hid =>
    if_neg fun hmem => hid (List.mem_of_mem_take hmem)⟩
  refine { h with
    allocated_nodup := h.allocated_nodup.filter _
    allocated := fun id => ?_
    fresh := fun id hsome => ?_
    held := fun id e he hheld => ?_
    limit := fun hmax => ?_
    available_nodup := ?_
    available := fun id hid => ?_
    slots := fun pool p hp id hid => ?_ }
  · change id ∈ s.allocatedElements.filter (· ∉ ids.drop n) ↔ _
    rw [List.mem_filter, h.allocated id, decide_eq_true_eq]
    by_cases hid : id ∈ ids.drop n
    · rw [hfreed id hid]
      exact iff_of_false (fun hmem => hmem.2 hid) nofun
    · rw [helements id hid]
      exact and_iff_left hid
  · by_cases hid : id ∈ ids.drop n
    · rw [hfreed id hid] at hsome
      cases hsome
    · rw [helements id hid] at hsome
      exact h.fresh id hsome
  · by_cases hid : id ∈ ids.drop n
    · rw [hfreed id hid] at he
      cases he
    · rw [helements id hid] at he
      obtain ⟨hacquired, hplace⟩ := h.held id e he hheld
      refine ⟨hacquired, (if_neg fun hmem => ?_).trans hplace⟩
      obtain ⟨-, e', he', hnot⟩ := hfree id (List.mem_of_mem_take hmem)
      rw [Option.some.inj (he.symm.trans he'), hnot] at hheld
      cases hheld
  · change (ids.take n ++ s.availableElements).length ≤ _
    have hlimit := h.limit hmax
    rw [List.length_append, List.length_take, hn, nrelease]
    split <;> omega
  · refine List.nodup_append.mpr ⟨hnodup.sublist (List.take_sublist ..), h.available_nodup,
      fun id hid id' hid' heq => ?_⟩
    refine hlisted id' ?_ (heq ▸ List.mem_of_mem_take hid)
    rw [(h.available id' hid').2]
    nofun
  · rcases List.mem_append.mp hid with hid | hid
    · rw [helements id (htaken id hid)]
      exact ⟨(hfree id (List.mem_of_mem_take hid)).isSome, if_pos hid⟩
    · obtain ⟨hsome, hplace⟩ := h.available id hid
      have huser : place id ≠ .user := by rw [hplace]; nofun
      rw [hkept id huser]
      exact ⟨hsome, (if_neg fun hmem => hlisted id huser (List.mem_of_mem_take hmem)).trans hplace⟩
  · obtain ⟨hsome, hplace⟩ := h.slots pool p hp id hid
    have huser : place id ≠ .user := by rw [hplace]; nofun
    rw [hkept id huser]
    exact ⟨hsome, (if_neg fun hmem => hlisted id huser (List.mem_of_mem_take hmem)).trans hplace⟩

/-- The array of a shared pool is written with elements that it had or that are in the hands
of the call; the ones that it has no more are in them now. -/
theorem Placed.setShared (h : Placed options place s) (pool : ℕ) (o : Option SharedPool)
    (hnodup : ∀ p ∈ o, (slotElements p.elements).Nodup)
    (hslots : ∀ p ∈ o, ∀ id ∈ slotElements p.elements,
      Free place s id ∨ (s.elements id).isSome = true ∧ place id = .shared pool) :
    ∃ place', Placed options place' (s.setShared pool o) ∧
      ∀ id, (∀ p ∈ o, id ∉ slotElements p.elements) →
        place id = .user ∨ place id = .shared pool → place' id = .user := by
  classical
  set put : ℕ → Prop := fun id => ∃ p ∈ o, id ∈ slotElements p.elements with hput
  have hplaces : ∀ id, put id → place id = .user ∨ place id = .shared pool := by
    rintro id ⟨p, hp, hid⟩
    exact (hslots p hp id hid).imp And.left And.right
  refine ⟨fun id => if put id then .shared pool else
    if place id = .shared pool then .user else place id, ?_, fun id hid hplace => ?_⟩
  · refine { h with
      held := fun id e he hheld => ?_
      available := fun id hid => ?_
      slots_nodup := fun pool' p hp => ?_
      slots := fun pool' p hp id hid => ?_ }
    · obtain ⟨hacquired, hplace⟩ := h.held id e he hheld
      refine ⟨hacquired, ?_⟩
      have hnot : ¬put id := by
        rintro ⟨p, hp, hid⟩
        rcases hslots p hp id hid with ⟨-, e', he', hnot⟩ | ⟨-, hshared⟩
        · change s.elements id = some e at he
          rw [Option.some.inj (he.symm.trans he'), hnot] at hheld
          cases hheld
        · exact absurd (hplace.symm.trans hshared) nofun
      rw [if_neg hnot, hplace]
      exact if_neg nofun
    · obtain ⟨hsome, hplace⟩ := h.available id hid
      refine ⟨hsome, ?_⟩
      have hnot : ¬put id := fun hid => by
        rcases hplaces id hid with huser | hshared
        · exact absurd (hplace.symm.trans huser) nofun
        · exact absurd (hplace.symm.trans hshared) nofun
      rw [if_neg hnot, hplace]
      exact if_neg nofun
    · by_cases hpool : pool' = pool
      · subst hpool
        simp only [Pools.setShared, Function.update_self] at hp
        exact hnodup p hp
      · simp only [Pools.setShared, Function.update_of_ne hpool] at hp
        exact h.slots_nodup pool' p hp
    · by_cases hpool : pool' = pool
      · subst hpool
        simp only [Pools.setShared, Function.update_self] at hp
        refine ⟨?_, if_pos ⟨p, hp, hid⟩⟩
        rcases hslots p hp id hid with hfree | ⟨hsome, -⟩
        · exact hfree.isSome
        · exact hsome
      · simp only [Pools.setShared, Function.update_of_ne hpool] at hp
        obtain ⟨hsome, hplace⟩ := h.slots pool' p hp id hid
        refine ⟨hsome, ?_⟩
        have hne : place id ≠ .shared pool := by
          rw [hplace]
          exact fun heq => hpool (Place.shared.inj heq)
        have hnot : ¬put id := fun hid => by
          rcases hplaces id hid with huser | hshared
          · exact absurd (hplace.symm.trans huser) nofun
          · exact hne hshared
        rw [if_neg hnot, if_neg hne, hplace]
  · have hnot : ¬put id := fun ⟨p, hp, hmem⟩ => hid p hp hmem
    dsimp only
    rw [if_neg hnot]
    rcases hplace with huser | hshared
    · rw [huser]
      exact if_neg nofun
    · exact if_pos hshared

end Placed

end Pools

end Utils

end PomeloUdp
