import PomeloUdp.Utils.PoolCallbacks

/-!
# Runs of the pools

Each call of a user keeps the places of the elements and the meaning of their flags, as long
as it is a careful one; from these, `protocol_run` for every run.
-/

namespace PomeloUdp

namespace Utils

open Machine PoolCall

namespace Pools

variable {options : PoolOptions} {place : ℕ → Place} {s s' : Pools} {id : ℕ} {e : PoolElement}

section Fields

@[simp] theorem callback_elements (s : Pools) (set : Bool) (c : PoolCall) :
    (s.callback set c).elements = s.elements := by
  cases set <;> rfl

@[simp] theorem callback_availableElements (s : Pools) (set : Bool) (c : PoolCall) :
    (s.callback set c).availableElements = s.availableElements := by
  cases set <;> rfl

@[simp] theorem callback_shared (s : Pools) (set : Bool) (c : PoolCall) :
    (s.callback set c).shared = s.shared := by
  cases set <;> rfl

@[simp] theorem callback_fault (s : Pools) (set : Bool) (c : PoolCall) :
    (s.callback set c).fault = s.fault := by
  cases set <;> rfl

@[simp] theorem callback_destroyed (s : Pools) (set : Bool) (c : PoolCall) :
    (s.callback set c).destroyed = s.destroyed := by
  cases set <;> rfl

theorem elements_modifyElement (he : s.elements id = some e) (f : PoolElement → PoolElement) :
    (s.modifyElement id f).elements id = some (f e) := by
  simp [modifyElement, he]

end Fields

/-- What the calls keep: the places, the flags, and that no assertion has failed. -/
structure Sound (options : PoolOptions) (place : ℕ → Place) (s : Pools) : Prop where
  placed : Placed options place s
  recorded : options.onAlloc = true → Recorded options s
  fault : s.fault = none

theorem Placed.not_held (h : Placed options place s) (hplace : place id ≠ .user)
    (he : s.elements id = some e) : e.held = false := by
  cases hheld : e.held with
  | false => rfl
  | true => exact absurd (h.held id e he hheld).2 hplace

theorem Sound.callback (h : Sound options place s) (set : Bool) {c : PoolCall}
    (hpermitted : options.onAlloc = true → Permitted options (life s.calls) c)
    (hquiet : record (life s.calls) c = life s.calls) :
    Sound options place (s.callback set c) where
  placed := h.placed.callback set c
  recorded hset := (h.recorded hset).callback set (hpermitted hset) hquiet
  fault := by simp [h.fault]

theorem Sound.modifyElement (h : Sound options place s) (id : ℕ) (hplace : place id = .user)
    {f : PoolElement → PoolElement}
    (hheld : ∀ e, s.elements id = some e → (f e).held = true → (f e).acquired = true)
    (hinitialized : ∀ e, (f e).initialized = e.initialized) :
    Sound options place (s.modifyElement id f) where
  placed := h.placed.modifyElement hplace hheld
  recorded hset := (h.recorded hset).modifyElement id hinitialized
  fault := h.fault

theorem Sound.releaseElements (h : Sound options place s) {ids : List ℕ} (hnodup : ids.Nodup)
    (hfree : ∀ id ∈ ids, Free place s id) (hraw : s.FreesRaw options ids) :
    ∃ place', Sound options place' (s.releaseElements options ids) ∧
      ∀ id, id ∉ ids → place' id = place id := by
  obtain ⟨place', hplaced, hother⟩ := h.placed.releaseElements hnodup hfree
  exact ⟨place', ⟨hplaced, fun hset => (h.recorded hset).releaseElements hset
    (fun id hid => (hfree id hid).isSome) hraw, h.fault⟩, hother⟩

section Root

theorem Sound.rootInit (h : Sound options place s) (env : PoolEnv) (hfree : Free place s id)
    (hinitialized : options.onAlloc = true → ∀ e, s.elements id = some e → e.initialized = true)
    (hroom : 0 < options.availableMax → s.availableElements.length < options.availableMax) :
    ∃ place', Sound options place' (s.rootInit options env id) := by
  obtain ⟨hplace, e, he, hheld⟩ := hfree
  have hpermitted : ∀ succeeded, options.onAlloc = true →
      Permitted options (life s.calls) (.onInit id succeeded) := fun _ hset _ =>
    (h.recorded hset).permitted he (hinitialized hset e he)
  unfold Pools.rootInit
  simp only [he]
  split
  · have hcalled := (h.callback true (hpermitted false) rfl).callback options.onCleanup
      (c := .onCleanup id) (fun _ => trivial) rfl
    obtain ⟨place', hsound, -⟩ := hcalled.releaseElements (List.nodup_singleton id)
      (fun id' hid' => by
        rw [List.mem_singleton.mp hid']
        exact ⟨hplace, e, by simpa using he, hheld⟩)
      (freesRaw_one (by simpa using hroom) id)
    exact ⟨place', hsound⟩
  · have hcalled := h.callback options.onInit (hpermitted true) rfl
    have hwritten := hcalled.modifyElement id hplace
      (f := fun e => { e with acquired := true, held := true }) (fun _ _ _ => rfl) fun _ => rfl
    refine ⟨place, hwritten.callback true (c := .handOut id) (fun hset _ => ?_) rfl⟩
    refine (hwritten.recorded hset).permitted (elements_modifyElement ?_ _) (hinitialized hset e he)
    simpa using he

theorem Sound.rootAcquire (h : Sound options place s) (env : PoolEnv)
    (hcareful : s.Careful options (.rootAcquire env)) :
    ∃ place', Sound options place' (s.rootAcquire options env) := by
  obtain ⟨place', hplaced, -, hfree⟩ := h.placed.acquireElements 1
  have hsound : Sound options place' (s.acquireElements 1).1 :=
    ⟨hplaced, fun hset => (h.recorded hset).kept rfl rfl, h.fault⟩
  unfold Pools.rootAcquire
  cases havailable : s.availableElements with
  | cons id rest =>
      have htaken : s.acquireElements 1 = ({ s with availableElements := rest }, [id]) := by
        simp [Pools.acquireElements, havailable]
      rw [htaken] at hsound hfree ⊢
      refine hsound.rootInit env (hfree id List.mem_cons_self) (fun hset e he => ?_) fun hmax => ?_
      · exact hcareful hset id (by rw [havailable]; rfl) e he
      · have hlimit := h.placed.limit hmax
        rw [havailable, List.length_cons] at hlimit
        exact hlimit
  | nil =>
      have htaken : s.acquireElements 1 = ({ s with availableElements := [] }, []) := by
        simp [Pools.acquireElements, havailable]
      rw [htaken] at hsound ⊢
      dsimp only
      set s₁ : Pools := { s with availableElements := [] } with hs₁
      obtain ⟨place₂, hplaced₂, -, hfree₂⟩ := hsound.placed.allocateElements 1 env.blocks
      have hsound₂ : Sound options place₂ (s₁.allocateElements options 1 env.blocks).1 :=
        ⟨hplaced₂, fun hset => (hsound.recorded hset).allocateElements 1 env.blocks, h.fault⟩
      have hempty : (s₁.allocateElements options 1 env.blocks).1.availableElements = [] := rfl
      generalize s₁.allocateElements options 1 env.blocks = allocated at hsound₂ hfree₂ hempty ⊢
      obtain ⟨s₂, ids⟩ := allocated
      cases ids with
      | nil => exact ⟨place₂, hsound₂⟩
      | cons id ids =>
          obtain ⟨⟨hplace, -⟩, he⟩ := hfree₂ id List.mem_cons_self
          dsimp only at hsound₂ he hempty ⊢
          have hroom : 0 < options.availableMax →
              s₂.availableElements.length < options.availableMax := by
            rw [hempty]
            exact fun hmax => hmax
          split
          · -- the element goes back to the list as it is
            have hfailed : Sound options place₂
                ((s₂.call (.onAlloc id false)).callback options.onFree (.onFree id)) :=
              ⟨(hsound₂.placed.call _).callback .., fun hset =>
                (hsound₂.recorded hset).failed he rfl, by simpa [call] using hsound₂.fault⟩
            obtain ⟨place₃, hsound₃, -⟩ := hfailed.releaseElements (List.nodup_singleton id)
              (fun id' hid' => by
                rw [List.mem_singleton.mp hid']
                exact ⟨hplace, _, by simpa [call] using he, rfl⟩)
              (freesRaw_one (by simpa [call] using hroom) id)
            exact ⟨place₃, hsound₃⟩
          · set s₃ : Pools := (s₂.callback options.onAlloc (.onAlloc id true)).modifyElement id
              fun e => { e with initialized := true } with hs₃
            have hwritten : s₃.elements id = some ⟨true, false, false⟩ :=
              elements_modifyElement (e := ⟨false, false, false⟩) (by simpa using he) _
            have hsound₃ : Sound options place₂ s₃ := by
              refine ⟨(hsound₂.placed.callback ..).modifyElement hplace fun e' he' => ?_,
                fun hset => (hsound₂.recorded hset).initialized hset id fun _ => rfl,
                by simpa [hs₃, Pools.modifyElement] using hsound₂.fault⟩
              rw [callback_elements, he] at he'
              rw [← Option.some.inj he']
              intro hfalse
              cases hfalse
            refine hsound₃.rootInit env ⟨hplace, _, hwritten, rfl⟩ (fun _ e' he' => ?_) ?_
            · rw [← Option.some.inj (hwritten.symm.trans he')]
            · simpa [hs₃, Pools.modifyElement] using hroom

theorem Sound.rootRelease (h : Sound options place s)
    (hcareful : s.Careful options (.rootRelease id)) :
    ∃ place', Sound options place' (s.rootRelease options id) := by
  unfold Pools.rootRelease
  cases he : s.elements id with
  | none => exact ⟨place, h⟩
  | some e =>
      dsimp only
      cases hheld : e.held with
      | false => exact ⟨place, h⟩
      | true =>
          obtain ⟨hacquired, hplace⟩ := h.placed.held id e he hheld
          simp only [hacquired, Bool.not_true, Bool.false_eq_true, if_false]
          have hraw := hcareful e he hheld
          have hwritten := (h.callback options.onCleanup (c := .onCleanup id) (fun _ => trivial)
            rfl).modifyElement id hplace
              (f := fun e => { e with acquired := false, held := false }) (fun _ _ => nofun)
              fun _ => rfl
          have he' := elements_modifyElement (s := s.callback options.onCleanup (.onCleanup id))
            (e := e) (by simpa using he) fun e => { e with acquired := false, held := false }
          obtain ⟨place', hsound, -⟩ := hwritten.releaseElements (List.nodup_singleton id)
            (fun id' hid' => by
              rw [List.mem_singleton.mp hid']
              exact ⟨hplace, _, he', rfl⟩)
            (fun hset hfree id' hid' e' hmem => by
              have hsame : nrelease options ((s.callback options.onCleanup
                  (.onCleanup id)).modifyElement id fun e =>
                    { e with acquired := false, held := false }) 1 = s.nrelease options 1 := by
                simp [nrelease, Pools.modifyElement]
              rw [List.length_singleton, hsame] at hid'
              obtain rfl := List.mem_singleton.mp (List.mem_of_mem_drop hid')
              rw [← Option.some.inj (he'.symm.trans hmem)]
              exact hraw hset hfree id' hid' e he)
          exact ⟨place', hsound⟩

theorem destroyElement_eq (he : s.elements id = some e) :
    s.destroyElement options id = { s with
      elements := Function.update s.elements id none
      calls := s.calls ++ ((if options.onCleanup && e.acquired then [.onCleanup id] else []) ++
        ((if options.onFree && e.initialized then [.onFree id] else []) ++ [.free id])) } := by
  unfold destroyElement
  simp only [he, callback_eq, call, List.append_assoc]

theorem Recorded.destroyElement (h : Recorded options s) (he : s.elements id = some e) :
    Recorded options (s.destroyElement options id) := by
  have hlife := h.life id e he
  have hcleaned : Recorded options (s.callback (options.onCleanup && e.acquired) (.onCleanup id)) :=
    h.callback _ trivial rfl
  have hsame : PoolCall.life (s.callback (options.onCleanup && e.acquired) (.onCleanup id)).calls =
      PoolCall.life s.calls := by
    rw [callback_eq, life_append]
    split <;> rfl
  set s₁ := s.callback (options.onCleanup && e.acquired) (.onCleanup id) with hs₁
  have heq : s.destroyElement options id = { s₁ with
      elements := Function.update s.elements id none
      calls := s₁.calls ++
        ((if options.onFree && e.initialized then [.onFree id] else []) ++ [.free id]) } := by
    rw [destroyElement_eq he, hs₁, callback_eq]
    simp
  have hothers : ∀ id' e', (s.destroyElement options id).elements id' = some e' →
      id' ≠ id ∧ s.elements id' = some e' := by
    intro id' e' he'
    rw [heq] at he'
    by_cases hid : id' = id
    · simp [hid] at he'
    · exact ⟨hid, by simpa [Function.update_of_ne hid] using he'⟩
  refine hcleaned.append _ (by rw [heq]) ?_ fun id' e' he' => ?_
  · rw [hsame]
    split
    · rename_i hfreed
      have hinitialized := (Bool.and_eq_true_iff.mp hfreed).2
      rw [hinitialized] at hlife
      refine ⟨trivial, fun _ _ => .inr ?_, trivial⟩
      simp [record, hlife]
    · rename_i hfreed
      refine ⟨fun _ hset => .inl ?_, trivial⟩
      rw [hset, Bool.true_and, Bool.not_eq_true] at hfreed
      rw [hlife, hfreed]
      rfl
  · obtain ⟨hid, hlive⟩ := hothers id' e' he'
    rw [hsame, ← h.life id' e' hlive]
    split
    · simp [record, Function.update_of_ne hid]
    · rfl

theorem destroy_loop {ids : List ℕ} (hnodup : ids.Nodup)
    (hlive : ∀ id ∈ ids, (s.elements id).isSome = true) (hfault : s.fault = none)
    (hrecorded : options.onAlloc = true → Recorded options s) :
    (ids.foldl (destroyElement options) s).fault = none ∧
      (options.onAlloc = true → Recorded options (ids.foldl (destroyElement options) s)) := by
  induction ids generalizing s with
  | nil => exact ⟨hfault, hrecorded⟩
  | cons id ids ih =>
      obtain ⟨hnot, hnodup⟩ := List.nodup_cons.mp hnodup
      obtain ⟨e, he⟩ := Option.isSome_iff_exists.mp (hlive id List.mem_cons_self)
      refine ih hnodup (fun id' hid' => ?_) ?_ fun hset => (hrecorded hset).destroyElement he
      · have hne : id' ≠ id := by
          rintro rfl
          exact hnot hid'
        rw [destroyElement_eq he]
        simpa [Function.update_of_ne hne] using hlive id' (List.mem_cons_of_mem _ hid')
      · rw [destroyElement_eq he]
        exact hfault

theorem Sound.rootDestroy (h : Sound options place s) :
    (s.rootDestroy options).fault = none ∧
      (options.onAlloc = true → Recorded options (s.rootDestroy options)) := by
  obtain ⟨hfault, hrecorded⟩ := destroy_loop h.placed.allocated_nodup
    (fun id hid => (h.placed.allocated id).mp hid) h.fault h.recorded
  exact ⟨hfault, fun hset => (hrecorded hset).kept rfl rfl⟩

end Root

section Shared

theorem Sound.setShared (h : Sound options place s) (pool : ℕ) (o : Option SharedPool)
    (hnodup : ∀ p ∈ o, (slotElements p.elements).Nodup)
    (hslots : ∀ p ∈ o, ∀ id ∈ slotElements p.elements,
      Free place s id ∨ (s.elements id).isSome = true ∧ place id = .shared pool) :
    ∃ place', Sound options place' (s.setShared pool o) ∧
      ∀ id, (∀ p ∈ o, id ∉ slotElements p.elements) →
        Free place s id ∨ (s.elements id).isSome = true ∧ place id = .shared pool →
          Free place' (s.setShared pool o) id := by
  obtain ⟨place', hplaced, hother⟩ := h.placed.setShared pool o hnodup hslots
  refine ⟨place', ⟨hplaced, fun hset => (h.recorded hset).kept rfl rfl, h.fault⟩,
    fun id hid hplace => ?_⟩
  rcases hplace with ⟨huser, e, he, hheld⟩ | ⟨hsome, hshared⟩
  · exact ⟨hother id hid (.inl huser), e, he, hheld⟩
  · obtain ⟨e, he⟩ := Option.isSome_iff_exists.mp hsome
    exact ⟨hother id hid (.inr hshared), e, he,
      h.placed.not_held (by rw [hshared]; nofun) he⟩

theorem Sound.sharedCreate (h : Sound options place s) (pool buffers : ℕ) :
    ∃ place', Sound options place' (s.sharedCreate pool buffers) := by
  unfold Pools.sharedCreate
  split
  · exact ⟨place, h⟩
  · obtain ⟨place', hsound, -⟩ := h.setShared pool
      (some ⟨if buffers = 0 then sharedPoolDefaultBuffers else buffers, []⟩)
      (fun p hp => by rw [← Option.some.inj hp]; exact List.nodup_nil)
      (fun p hp id hid => by
        rw [← Option.some.inj hp] at hid
        cases hid)
    exact ⟨place', hsound⟩

theorem releaseSlots_eq {slots : List PoolSlot}
    (hslots : (slotElements slots).length = slots.length) :
    s.releaseSlots options slots = s.releaseElements options (slotElements slots) := by
  rw [releaseSlots, if_neg (not_not.mpr hslots)]

theorem setShared_releaseElements (s : Pools) (ids : List ℕ) (pool : ℕ) (o : Option SharedPool) :
    (s.setShared pool o).releaseElements options ids =
      (s.releaseElements options ids).setShared pool o :=
  rfl

theorem Sound.sharedDestroy (h : Sound options place s) {pool : ℕ}
    (hcareful : s.Careful options (.sharedDestroy pool)) :
    ∃ place', Sound options place' (s.sharedDestroy options pool) := by
  unfold Pools.sharedDestroy
  cases hp : s.shared pool with
  | none => exact ⟨place, h⟩
  | some p =>
      obtain ⟨hslots, hraw⟩ := hcareful p hp
      dsimp only
      rw [releaseSlots_eq hslots, ← setShared_releaseElements]
      obtain ⟨place₁, hsound₁, hfree⟩ := h.setShared pool none (fun _ h => nomatch h)
        fun _ h => nomatch h
      obtain ⟨place₂, hsound₂, -⟩ := hsound₁.releaseElements (h.placed.slots_nodup pool p hp)
        (fun id hid => hfree id (fun _ h => nomatch h) (.inr (h.placed.slots pool p hp id hid)))
        hraw
      exact ⟨place₂, hsound₂⟩

theorem Sound.sharedRefill (h : Sound options place s) (env : PoolEnv) {pool : ℕ} {p : SharedPool}
    (hp : s.shared pool = some p) :
    ∃ place', Sound options place' (s.sharedRefill options env p).1 ∧
      (slotElements (s.sharedRefill options env p).2).Nodup ∧
      (∀ id ∈ slotElements (s.sharedRefill options env p).2,
        Free place' (s.sharedRefill options env p).1 id ∨
          ((s.sharedRefill options env p).1.elements id).isSome = true ∧
            place' id = .shared pool) ∧
      ((s.sharedRefill options env p).2 = p.elements ∨
        ∃ ids : List ℕ, (s.sharedRefill options env p).2 = ids.map .element) := by
  unfold Pools.sharedRefill
  split
  · exact ⟨place, h, h.placed.slots_nodup pool p hp,
      fun id hid => .inr (h.placed.slots pool p hp id hid), .inl rfl⟩
  · obtain ⟨place₁, hplaced₁, hnodup₁, hfree₁⟩ := h.placed.acquireElements p.buffers
    have hsound₁ : Sound options place₁ (s.acquireElements p.buffers).1 :=
      ⟨hplaced₁, fun hset => (h.recorded hset).kept rfl rfl, h.fault⟩
    generalize s.acquireElements p.buffers = acquired at hsound₁ hnodup₁ hfree₁ ⊢
    obtain ⟨s₁, ids⟩ := acquired
    cases ids with
    | cons id ids =>
        refine ⟨place₁, hsound₁, ?_, ?_, .inr ⟨_, rfl⟩⟩
        · rw [slotElements_map]
          exact hnodup₁
        · rw [slotElements_map]
          exact fun id hid => .inl (hfree₁ id hid)
    | nil =>
        dsimp only at hsound₁ ⊢
        obtain ⟨place₂, hplaced₂, hnodup₂, hfree₂⟩ :=
          hsound₁.placed.allocateElements p.buffers env.blocks
        have hsound₂ : Sound options place₂ (s₁.allocateElements options p.buffers env.blocks).1 :=
          ⟨hplaced₂, fun hset => (hsound₁.recorded hset).allocateElements p.buffers env.blocks,
            hsound₁.fault⟩
        refine ⟨place₂, hsound₂, ?_, ?_, .inr ⟨_, rfl⟩⟩
        · rw [slotElements_map]
          exact hnodup₂
        · rw [slotElements_map]
          exact fun id hid => .inl (hfree₂ id hid).1

/-- The callbacks for an element in the hands of a shared pool, which sets the flag when
`on_alloc` succeeds. -/
theorem Sound.sharedInit (h : Sound options place s) (env : PoolEnv) {pool : ℕ} {p : SharedPool}
    (hp : s.shared pool = some p) (hfree : Free place s id) :
    ∃ place', Sound options place' (s.sharedInit options env pool p id) := by
  obtain ⟨hplace, e, he, hheld⟩ := hfree
  -- the array gets a pointer to data, which is no element of it
  have hpushed : ∀ {s' : Pools} (place' : ℕ → Place), Sound options place' s' →
      s'.shared = s.shared → ∃ place'', Sound options place''
        (s'.setShared pool (some { p with elements := p.elements ++ [.data id] })) := by
    intro s' place' hsound hshared
    have hp' : s'.shared pool = some p := by rw [hshared, hp]
    have hsame : slotElements (p.elements ++ [.data id]) = slotElements p.elements := by
      rw [slotElements_append]
      exact List.append_nil _
    obtain ⟨place'', hsound', -⟩ := hsound.setShared pool
      (some { p with elements := p.elements ++ [.data id] })
      (fun q hq => by
        rw [← Option.some.inj hq]
        dsimp only
        rw [hsame]
        exact hsound.placed.slots_nodup pool p hp')
      (fun q hq id' hid' => by
        rw [← Option.some.inj hq] at hid'
        dsimp only at hid'
        rw [hsame] at hid'
        exact .inr (hsound.placed.slots pool p hp' id' hid'))
    exact ⟨place'', hsound'⟩
  unfold Pools.sharedInit
  simp only [he]
  split
  · rename_i hfailed
    have hraw : e.initialized = false := by
      simp only [Bool.and_eq_true, Bool.not_eq_true'] at hfailed
      exact hfailed.1.1
    refine hpushed place ⟨(h.placed.call _).callback .., fun hset =>
      (h.recorded hset).failed he hraw, by simpa [call] using h.fault⟩ ?_
    simp [call]
  · set s₁ : Pools := (s.callback (!e.initialized && options.onAlloc)
      (.onAlloc id true)).modifyElement id
        fun e => { e with initialized := true, acquired := true } with hs₁
    have hwritten : s₁.elements id = some { e with initialized := true, acquired := true } :=
      elements_modifyElement (by simpa using he) _
    have hsound₁ : Sound options place s₁ := by
      refine ⟨(h.placed.callback ..).modifyElement hplace fun _ _ _ => rfl, fun hset => ?_,
        by simpa [hs₁, Pools.modifyElement] using h.fault⟩
      cases hinitialized : e.initialized with
      | true =>
          refine Recorded.kept (s := s.modifyElement id fun e => { e with acquired := true })
            ((h.recorded hset).modifyElement id fun _ => rfl) ?_ ?_
          · simp only [hs₁, Pools.modifyElement, callback_elements, he, Option.map_some,
              hinitialized]
          · simp [hs₁, Pools.modifyElement, callback_eq, hinitialized]
      | false =>
          have heq : s₁ = (s.callback options.onAlloc (.onAlloc id true)).modifyElement id
              fun e => { e with initialized := true, acquired := true } := by
            rw [hs₁, hinitialized]
            simp
          rw [heq]
          exact (h.recorded hset).initialized hset id fun _ => rfl
    have hpermitted : ∀ succeeded, options.onAlloc = true →
        Permitted options (life s₁.calls) (.onInit id succeeded) := fun _ hset _ =>
      (hsound₁.recorded hset).permitted hwritten rfl
    split
    · refine hpushed place
        ((hsound₁.callback true (hpermitted false) rfl).callback options.onCleanup
        (c := .onCleanup id) (fun _ => trivial) rfl) ?_
      simp [hs₁, call, Pools.modifyElement]
    · have hcalled := hsound₁.callback options.onInit (hpermitted true) rfl
      have hheld₁ := hcalled.modifyElement id hplace (f := fun e => { e with held := true })
        (fun e' he' _ => by
          rw [callback_elements, hwritten] at he'
          rw [← Option.some.inj he']) fun _ => rfl
      refine ⟨place, hheld₁.callback true (c := .handOut id) (fun hset _ => ?_) rfl⟩
      exact (hheld₁.recorded hset).permitted
        (elements_modifyElement (by simpa using hwritten) _) rfl

theorem Sound.sharedAcquire (h : Sound options place s) (env : PoolEnv) {pool : ℕ}
    (hcareful : s.Careful options (.sharedAcquire pool env)) :
    ∃ place', Sound options place' (s.sharedAcquire options env pool) := by
  unfold Pools.sharedAcquire
  cases hp : s.shared pool with
  | none => exact ⟨place, h⟩
  | some p =>
      dsimp only
      obtain ⟨place₁, hsound₁, hnodup, hslots, hkind⟩ := h.sharedRefill env hp
      have hlast : ∀ slot ∈ (s.sharedRefill options env p).2.getLast?,
          ∃ id, slot = .element id := by
        intro slot hslot
        rcases hkind with hsame | ⟨ids, hids⟩
        · rw [hsame] at hslot
          cases slot with
          | element id => exact ⟨id, rfl⟩
          | data id => exact absurd rfl (hcareful p hp _ hslot)
        · rw [hids] at hslot
          obtain ⟨id, -, rfl⟩ := List.mem_map.mp (List.mem_of_getLast? hslot)
          exact ⟨id, rfl⟩
      generalize s.sharedRefill options env p = refilled at hsound₁ hnodup hslots hlast ⊢
      obtain ⟨s₁, slots⟩ := refilled
      dsimp only at hsound₁ hnodup hslots hlast ⊢
      have hfront : ∀ id ∈ slotElements slots.dropLast, id ∈ slotElements slots := fun id hid =>
        mem_slotElements.mpr ((List.dropLast_sublist slots).subset (mem_slotElements.mp hid))
      obtain ⟨place₂, hsound₂, hfree₂⟩ := hsound₁.setShared pool
        (some { p with elements := slots.dropLast })
        (fun q hq => by
          rw [← Option.some.inj hq]
          exact hnodup.sublist ((List.dropLast_sublist slots).filterMap _))
        (fun q hq id hid => by
          rw [← Option.some.inj hq] at hid
          exact hslots id (hfront id hid))
      cases hslot : slots.getLast? with
      | none => exact ⟨place₂, hsound₂⟩
      | some slot =>
          obtain ⟨id, rfl⟩ := hlast slot hslot
          dsimp only
          have hsplit : slots = slots.dropLast ++ [.element id] :=
            (List.dropLast_append_getLast? _ hslot).symm
          have hsplit' : slotElements slots = slotElements slots.dropLast ++ [id] := by
            conv_lhs => rw [hsplit, slotElements_append]
            rfl
          rw [hsplit'] at hnodup
          have hnot : id ∉ slotElements slots.dropLast := fun hmem =>
            (List.nodup_append.mp hnodup).2.2 id hmem id List.mem_cons_self rfl
          refine hsound₂.sharedInit env (p := { p with elements := slots.dropLast })
            (Function.update_self ..) (hfree₂ id (fun q hq => ?_) (hslots id ?_))
          · rw [← Option.some.inj hq]
            exact hnot
          · rw [hsplit']
            exact List.mem_append_right _ List.mem_cons_self

theorem Sound.pushed (h : Sound options place s) (pool : ℕ) {p : SharedPool}
    (hp : s.shared pool = some p) (he : s.elements id = some e) (hheld : e.held = true) :
    ∃ place', Sound options place' (((s.callback options.onCleanup (.onCleanup id)).modifyElement id
      fun e => { e with acquired := false, held := false }).setShared pool
        (some { p with elements := p.elements ++ [.element id] })) := by
  obtain ⟨-, hplace⟩ := h.placed.held id e he hheld
  have hwritten := (h.callback options.onCleanup (c := .onCleanup id) (fun _ => trivial)
    rfl).modifyElement id hplace
      (f := fun e => { e with acquired := false, held := false })
      (fun _ _ hfalse => by cases hfalse)
        fun _ => rfl
  have he' := elements_modifyElement (s := s.callback options.onCleanup (.onCleanup id))
    (e := e) (by simpa using he) fun e => { e with acquired := false, held := false }
  have hp' : ((s.callback options.onCleanup (.onCleanup id)).modifyElement id
      fun e => { e with acquired := false, held := false }).shared pool = some p := by
    simpa [Pools.modifyElement] using hp
  have hslots : slotElements (p.elements ++ [.element id]) = slotElements p.elements ++ [id] :=
    slotElements_append ..
  obtain ⟨place', hsound, -⟩ := hwritten.setShared pool
    (some { p with elements := p.elements ++ [.element id] })
    (fun q hq => by
      rw [← Option.some.inj hq]
      dsimp only
      rw [hslots]
      refine List.nodup_append.mpr ⟨h.placed.slots_nodup pool p hp, List.nodup_singleton id,
        fun id₁ hid₁ id₂ hid₂ heq => ?_⟩
      rw [heq, List.mem_singleton.mp hid₂] at hid₁
      exact absurd (hplace.symm.trans (h.placed.slots pool p hp id hid₁).2)
        fun heq => by cases heq)
    (fun q hq id₁ hid₁ => by
      rw [← Option.some.inj hq] at hid₁
      dsimp only at hid₁
      rw [hslots] at hid₁
      rcases List.mem_append.mp hid₁ with hid₁ | hid₁
      · exact .inr (hwritten.placed.slots pool p hp' id₁ hid₁)
      · rw [List.mem_singleton.mp hid₁]
        exact .inl ⟨hplace, _, he', rfl⟩)
  exact ⟨place', hsound⟩

theorem Sound.sharedRelease (h : Sound options place s) {pool : ℕ}
    (hcareful : s.Careful options (.sharedRelease pool id)) :
    ∃ place', Sound options place' (s.sharedRelease options pool id) := by
  unfold Pools.sharedRelease
  cases hp : s.shared pool with
  | none => exact ⟨place, h⟩
  | some p =>
      cases he : s.elements id with
      | none => exact ⟨place, h⟩
      | some e =>
          dsimp only
          cases hheld : e.held with
          | false => exact ⟨place, h⟩
          | true =>
              obtain ⟨hacquired, hplace⟩ := h.placed.held id e he hheld
              simp only [hacquired, Bool.not_true, Bool.false_eq_true, if_false]
              by_cases hfull : p.elements.length = 2 * p.buffers
              · simp only [hfull, if_true]
                obtain ⟨hslots, hraw⟩ := hcareful e he hheld p hp hfull
                rw [releaseSlots_eq hslots]
                have hnodup := h.placed.slots_nodup pool p hp
                have hsplit : slotElements p.elements = slotElements (p.elements.take p.buffers) ++
                    slotElements (p.elements.drop p.buffers) := by
                  rw [← slotElements_append, List.take_append_drop]
                rw [hsplit] at hnodup
                obtain ⟨hkept, hgone, hdisjoint⟩ := List.nodup_append.mp hnodup
                have hold : ∀ id' ∈ slotElements p.elements, Free place s id' ∨
                    (s.elements id').isSome = true ∧ place id' = .shared pool :=
                  fun id' hid' => .inr (h.placed.slots pool p hp id' hid')
                obtain ⟨place₁, hsound₁, hfree₁⟩ := h.setShared pool
                  (some { p with elements := p.elements.take p.buffers })
                  (fun q hq => by rw [← Option.some.inj hq]; exact hkept)
                  (fun q hq id' hid' => by
                    rw [← Option.some.inj hq] at hid'
                    exact hold id' (hsplit ▸ List.mem_append_left _ hid'))
                obtain ⟨place₂, hsound₂, -⟩ := hsound₁.releaseElements hgone
                  (fun id' hid' => hfree₁ id'
                    (fun q hq hmem => by
                      rw [← Option.some.inj hq] at hmem
                      exact hdisjoint id' hmem id' hid' rfl)
                    (hold id' (hsplit ▸ List.mem_append_right _ hid'))) hraw
                have hnot : id ∉ slotElements (p.elements.drop p.buffers) := fun hmem =>
                  absurd (hplace.symm.trans (h.placed.slots pool p hp id
                    (hsplit ▸ List.mem_append_right _ hmem)).2) nofun
                have he₂ : ((s.setShared pool (some { p with
                    elements := p.elements.take p.buffers })).releaseElements options
                      (slotElements (p.elements.drop p.buffers))).elements id = some e := by
                  simp only [Pools.releaseElements]
                  rw [if_neg fun hmem => hnot (List.mem_of_mem_drop hmem)]
                  exact he
                obtain ⟨place₃, hsound₃⟩ := hsound₂.pushed pool
                  (p := { p with elements := p.elements.take p.buffers })
                  (Function.update_self ..) he₂ hheld
                refine ⟨place₃, ?_⟩
                convert hsound₃ using 1
                rw [setShared_releaseElements, callback_eq, callback_eq]
                simp [Pools.setShared, Pools.modifyElement]
              · simp only [hfull, if_false]
                exact h.pushed pool hp he hheld

end Shared

section Runs

/-- What is kept along a run; the places are gone with the root pool. -/
structure Kept (options : PoolOptions) (s : Pools) : Prop where
  recorded : options.onAlloc = true → Recorded options s
  fault : s.fault = none
  placed : s.destroyed = false → ∃ place, Placed options place s

theorem Sound.kept (h : Sound options place s) : Kept options s :=
  ⟨h.recorded, h.fault, fun _ => ⟨place, h.placed⟩⟩

theorem Kept.step (h : Kept options s) (event : PoolEvent) (hcareful : s.Careful options event) :
    Kept options (s.step options event) := by
  unfold Pools.step
  split
  · exact h
  · rename_i hrunning
    simp only [Bool.or_eq_true, not_or, Bool.not_eq_true] at hrunning
    obtain ⟨place, hplaced⟩ := h.placed hrunning.1
    have hsound : Sound options place s := ⟨hplaced, h.recorded, h.fault⟩
    cases event with
    | rootAcquire env =>
        obtain ⟨_, hsound'⟩ := hsound.rootAcquire env hcareful
        exact hsound'.kept
    | rootRelease id =>
        obtain ⟨_, hsound'⟩ := hsound.rootRelease hcareful
        exact hsound'.kept
    | rootDestroy =>
        obtain ⟨hfault, hrecorded⟩ := hsound.rootDestroy
        exact ⟨hrecorded, hfault, nofun⟩
    | sharedCreate pool buffers =>
        obtain ⟨_, hsound'⟩ := hsound.sharedCreate pool buffers
        exact hsound'.kept
    | sharedAcquire pool env =>
        obtain ⟨_, hsound'⟩ := hsound.sharedAcquire env hcareful
        exact hsound'.kept
    | sharedRelease pool id =>
        obtain ⟨_, hsound'⟩ := hsound.sharedRelease hcareful
        exact hsound'.kept
    | sharedDestroy pool =>
        obtain ⟨_, hsound'⟩ := hsound.sharedDestroy hcareful
        exact hsound'.kept

theorem kept_create (options : PoolOptions) : Kept options create :=
  ⟨fun _ => recorded_create options, rfl, fun _ => ⟨_, placed_create options⟩⟩

/-- In every run of careful calls the pools keep to the protocol, with callbacks that fail
and blocks that run out at any time. -/
theorem protocol_run (options : PoolOptions) (events : List PoolEvent)
    (hcareful : Along (step options) (Careful options) create events) :
    (run (step options) create events).fault = none ∧
      Disciplined options (run (step options) create events).calls := by
  have hkept := invariant_run (I := Kept options) (fun s event h hevent => h.step event hevent)
    (kept_create options) hcareful
  refine ⟨hkept.fault, ?_⟩
  cases hset : options.onAlloc with
  | true => exact (hkept.recorded hset).disciplined
  | false => exact disciplined_of_not_onAlloc hset _

/-- A pool with every callback and no limit. -/
def plainOptions : PoolOptions := ⟨0, 0, true, true, true, true⟩

/-- Blocks are there and the callbacks succeed. -/
def plainEnv : PoolEnv := ⟨16, true, true⟩

/-- An element wanders from a shared pool to the root pool; an `on_init` fails in the root
pool, an `on_alloc` too. -/
def wandering : List PoolEvent :=
  [.sharedCreate 0 1, .sharedAcquire 0 plainEnv, .rootRelease 0, .rootAcquire plainEnv,
    .sharedRelease 0 0, .sharedDestroy 0, .rootAcquire ⟨16, true, false⟩, .rootAcquire plainEnv,
    .rootAcquire ⟨16, false, true⟩, .rootDestroy]

theorem disciplined_wandering :
    (run (step plainOptions) create wandering).fault = none ∧
      Disciplined plainOptions (run (step plainOptions) create wandering).calls :=
  protocol_run plainOptions wandering (by decide +kernel)

/-- A shared pool takes two blocks, initializes one and is destroyed; the root pool hands
out the other one as it is. -/
theorem not_disciplined_rawElement :
    ¬ ∀ (options : PoolOptions) (events : List PoolEvent),
      (run (step options) create events).fault = none ∧
        Disciplined options (run (step options) create events).calls := by
  intro h
  have hdisciplined := (h plainOptions [.sharedCreate 0 2, .sharedAcquire 0 plainEnv,
    .sharedDestroy 0, .rootAcquire plainEnv]).2
  revert hdisciplined
  decide +kernel

end Runs

end Pools

end Utils

end PomeloUdp
