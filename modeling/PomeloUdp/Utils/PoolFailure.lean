import PomeloUdp.Utils.PoolDiscipline

/-!
# A callback that fails in a shared pool

A shared pool takes an element from the end of its array before it calls `on_alloc` and
`on_init`, and puts it back when one of them fails. What it puts back is the pointer to the
data, where the array has pointers to elements: `restored_never` says that no failure leaves
the array as it was, and that the next call to acquire an element uses the wrong pointer
where it would have used the element.
-/

namespace PomeloUdp

namespace Utils

open Machine

namespace PoolCall

/-- A callback reports an error. -/
def failed : PoolCall → Bool
  | .onAlloc _ succeeded | .onInit _ succeeded => !succeeded
  | _ => false

end PoolCall

namespace Pools

variable {options : PoolOptions} {s s' : Pools} {env : PoolEnv} {pool id : ℕ}

section Conditions

/-- A callback reports an error between two states of a run. -/
def CallbackFails (s s' : Pools) : Prop :=
  ∃ c ∈ s'.calls.drop s.calls.length, c.failed = true

instance (s s' : Pools) : Decidable (CallbackFails s s') :=
  inferInstanceAs (Decidable (∃ c ∈ _, _))

/-- The array of a shared pool has the elements that it had behind the requests for more,
and they are elements that nobody has acquired. -/
structure Intact (options : PoolOptions) (s s' : Pools) (env : PoolEnv) (pool : ℕ) : Prop where
  same : ∀ p ∈ s.shared pool, ∀ p' ∈ s'.shared pool,
    p'.elements.Perm (s.sharedRefill options env p).2
  headers : ∀ p' ∈ s'.shared pool, ∀ slot ∈ p'.elements, ∃ id e,
    slot = .element id ∧ s'.elements id = some e ∧ e.acquired = false

/-- Every sequence of later calls fails or does not fail from both states. -/
def ActsAlike (options : PoolOptions) (s s' : Pools) : Prop :=
  ∀ events, (run (step options) s' events).fault = (run (step options) s events).fault

end Conditions

section Equations

theorem drop_calls {cs : List PoolCall} (h : s'.calls = s.calls ++ cs) :
    s'.calls.drop s.calls.length = cs := by
  rw [h, List.drop_left]

theorem sharedRefill_calls (options : PoolOptions) (s : Pools) (env : PoolEnv) (p : SharedPool) :
    (s.sharedRefill options env p).1.destroyed = s.destroyed ∧
      (s.sharedRefill options env p).1.fault = s.fault ∧
      ∃ ids : List ℕ, (s.sharedRefill options env p).1.calls = s.calls ++ ids.map .malloc := by
  unfold sharedRefill
  split
  · exact ⟨rfl, rfl, [], (List.append_nil _).symm⟩
  · split
    · rename_i hacquire
      obtain rfl : _ = _ := congrArg Prod.fst hacquire
      exact ⟨rfl, rfl, [], (List.append_nil _).symm⟩
    · rename_i s₁ hacquire
      obtain rfl : _ = s₁ := congrArg Prod.fst hacquire
      exact ⟨rfl, rfl, _, rfl⟩

theorem sharedRefill_env (options : PoolOptions) (env env' : PoolEnv)
    (h : env'.blocks = env.blocks) (s : Pools) (p : SharedPool) :
    s.sharedRefill options env' p = s.sharedRefill options env p := by
  unfold sharedRefill
  rw [h]

end Equations

section Failure

variable {p : SharedPool}

theorem not_callbackFails (cs : List PoolCall) (h : s'.calls = s.calls ++ cs)
    (hquiet : ∀ c ∈ cs, c.failed = false) : ¬ CallbackFails s s' := by
  rintro ⟨c, hc, hfailed⟩
  rw [drop_calls h] at hc
  exact Bool.noConfusion ((hquiet c hc).symm.trans hfailed)

theorem CallbackFails.behind {s₁ : Pools} {cs : List PoolCall} (h : CallbackFails s s')
    (h₁ : s₁.calls = s.calls ++ cs) (hquiet : ∀ c ∈ cs, c.failed = false)
    (hmore : s₁.calls <+: s'.calls) : CallbackFails s₁ s' := by
  obtain ⟨c, hc, hfailed⟩ := h
  obtain ⟨cs', hcs'⟩ := hmore
  rw [← hcs', h₁, List.append_assoc, List.drop_left, List.mem_append] at hc
  rcases hc with hc | hc
  · exact absurd (hfailed.symm.trans (hquiet c hc)) nofun
  · exact ⟨c, by rwa [← hcs', List.drop_left], hfailed⟩

theorem sharedInit_calls (options : PoolOptions) (s : Pools) (env : PoolEnv) (pool : ℕ)
    (p : SharedPool) (id : ℕ) : s.calls <+: (s.sharedInit options env pool p id).calls := by
  unfold sharedInit
  cases s.elements id with
  | none => exact List.prefix_rfl
  | some e =>
      dsimp only
      split
      · simp [callback_eq, Pools.call, Pools.setShared]
      · split <;> simp [callback_eq, Pools.call, Pools.setShared, Pools.modifyElement]

theorem sharedInit_failed
    (hfails : CallbackFails s (s.sharedInit options env pool p id)) :
    (s.elements id).isSome = true ∧
      (s.sharedInit options env pool p id).destroyed = s.destroyed ∧
      (s.sharedInit options env pool p id).fault = s.fault ∧
      (s.sharedInit options env pool p id).shared pool =
        some { p with elements := p.elements ++ [.data id] } := by
  unfold sharedInit at hfails ⊢
  cases he : s.elements id with
  | none =>
      rw [he] at hfails
      exact absurd hfails (not_callbackFails [] (List.append_nil _).symm nofun)
  | some e =>
      rw [he] at hfails
      dsimp only at hfails ⊢
      refine ⟨rfl, ?_⟩
      split
      · simp [callback_eq, Pools.call, Pools.setShared]
      · rename_i halloc
        rw [if_neg halloc] at hfails
        split
        · simp [callback_eq, Pools.call, Pools.setShared, Pools.modifyElement]
        · rename_i hinit
          rw [if_neg hinit] at hfails
          refine absurd hfails (not_callbackFails ((if !e.initialized && options.onAlloc
            then [.onAlloc id true] else []) ++ (if options.onInit then [.onInit id true] else [])
              ++ [.handOut id]) ?_ ?_)
          · simp [callback_eq, Pools.call, Pools.modifyElement]
          · intro c hc
            simp only [List.mem_append, List.mem_ite_nil_right, List.mem_singleton] at hc
            rcases hc with (⟨-, rfl⟩ | ⟨-, rfl⟩) | rfl <;> rfl

theorem sharedInit_succeeds (hsome : (s.elements id).isSome = true)
    (hallocated : env.allocated = true) (hinitialized : env.initialized = true) :
    (s.sharedInit options env pool p id).fault = s.fault := by
  obtain ⟨e, he⟩ := Option.isSome_iff_exists.mp hsome
  unfold sharedInit
  rw [he]
  simp [hallocated, hinitialized, callback_eq, Pools.call, Pools.modifyElement]

/-- What a failed call leaves: the array is the one behind the requests for more elements,
with the pointer to the data of its last element in the place of that element. -/
theorem sharedAcquire_failed (hfails : CallbackFails s (s.sharedAcquire options env pool)) :
    ∃ p slots id, s.shared pool = some p ∧
      (s.sharedRefill options env p).2 = slots ++ [.element id] ∧
      ((s.sharedRefill options env p).1.elements id).isSome = true ∧
      (s.sharedAcquire options env pool).destroyed = s.destroyed ∧
      (s.sharedAcquire options env pool).fault = s.fault ∧
      (s.sharedAcquire options env pool).shared pool =
        some { p with elements := slots ++ [.data id] } := by
  unfold sharedAcquire at hfails ⊢
  cases hp : s.shared pool with
  | none =>
      rw [hp] at hfails
      exact absurd hfails (not_callbackFails [] (List.append_nil _).symm nofun)
  | some p =>
      rw [hp] at hfails
      dsimp only at hfails ⊢
      obtain ⟨hdestroyed₁, hfault₁, ids, hcalls⟩ := sharedRefill_calls options s env p
      have hquiet : ∀ c ∈ ids.map PoolCall.malloc, c.failed = false := by
        intro c hc
        obtain ⟨id, -, rfl⟩ := List.mem_map.mp hc
        rfl
      cases hlast : (s.sharedRefill options env p).2.getLast? with
      | none =>
          rw [hlast] at hfails
          exact absurd hfails (not_callbackFails _ hcalls hquiet)
      | some slot =>
          rw [hlast] at hfails
          cases slot with
          | data id => exact absurd hfails (not_callbackFails _ hcalls hquiet)
          | element id =>
              dsimp only at hfails ⊢
              obtain ⟨hsome, hdestroyed, hfault, hshared⟩ := sharedInit_failed
                (hfails.behind hcalls hquiet (sharedInit_calls ..))
              exact ⟨p, _, id, rfl, (List.dropLast_append_getLast? _ hlast).symm, hsome,
                hdestroyed.trans hdestroyed₁, hfault.trans hfault₁, hshared⟩

theorem sharedAcquire_data {slots : List PoolSlot} (hp : s.shared pool =
    some { p with elements := slots ++ [.data id] }) (env : PoolEnv) :
    (s.sharedAcquire options env pool).fault = some .pointer := by
  unfold sharedAcquire
  rw [hp]
  simp [sharedRefill, Pools.setShared]

theorem sharedAcquire_succeeds {slots : List PoolSlot} (hp : s.shared pool = some p)
    (hrefill : (s.sharedRefill options env p).2 = slots ++ [.element id])
    (hsome : ((s.sharedRefill options env p).1.elements id).isSome = true)
    (hallocated : env.allocated = true) (hinitialized : env.initialized = true) :
    (s.sharedAcquire options env pool).fault = s.fault := by
  obtain ⟨-, hfault, -⟩ := sharedRefill_calls options s env p
  unfold sharedAcquire
  rw [hp]
  dsimp only
  rw [hrefill, List.getLast?_concat, List.dropLast_concat]
  exact (sharedInit_succeeds (by exact hsome) hallocated hinitialized).trans hfault

/-- No failed call leaves the array of the shared pool as it was, and from then on the pools
do not act as if the call had not happened. -/
theorem restored_never (options : PoolOptions) (s : Pools) (env : PoolEnv) (pool : ℕ)
    (hfails : CallbackFails s (s.step options (.sharedAcquire pool env))) :
    ¬ Intact options s (s.step options (.sharedAcquire pool env)) env pool ∧
      ¬ ActsAlike options s (s.step options (.sharedAcquire pool env)) := by
  unfold step at hfails ⊢
  split at hfails
  · exact absurd hfails (not_callbackFails [] (List.append_nil _).symm nofun)
  · rename_i hrunning
    simp only [hrunning, Bool.false_eq_true, if_false] at hfails ⊢
    obtain ⟨p, slots, id, hp, hrefill, hsome, hdestroyed, hfault, hshared⟩ :=
      sharedAcquire_failed hfails
    refine ⟨fun hintact => ?_, fun halike => ?_⟩
    · obtain ⟨id', e, hslot, -⟩ := hintact.headers _ hshared (.data id) (by simp)
      cases hslot
    · -- the next call with callbacks that succeed
      have hnext := halike [.sharedAcquire pool ⟨env.blocks, true, true⟩]
      simp only [run_cons, run_nil, step, hdestroyed, hfault, hrunning, Bool.false_eq_true,
        if_false] at hnext
      have henv := sharedRefill_env options env ⟨env.blocks, true, true⟩ rfl s p
      rw [sharedAcquire_data hshared, sharedAcquire_succeeds hp (by rw [henv]; exact hrefill)
        (by rw [henv]; exact hsome) rfl rfl] at hnext
      rw [← hnext] at hrunning
      simp at hrunning

/-- The first `on_alloc` fails in a shared pool of one element. -/
theorem restored_never_alloc :
    CallbackFails (create.step plainOptions (.sharedCreate 0 1))
        ((create.step plainOptions (.sharedCreate 0 1)).step plainOptions
          (.sharedAcquire 0 ⟨16, false, true⟩)) ∧
      ¬ Intact plainOptions (create.step plainOptions (.sharedCreate 0 1))
        ((create.step plainOptions (.sharedCreate 0 1)).step plainOptions
          (.sharedAcquire 0 ⟨16, false, true⟩)) ⟨16, false, true⟩ 0 ∧
      ¬ ActsAlike plainOptions (create.step plainOptions (.sharedCreate 0 1))
        ((create.step plainOptions (.sharedCreate 0 1)).step plainOptions
          (.sharedAcquire 0 ⟨16, false, true⟩)) :=
  ⟨by decide, restored_never plainOptions (create.step plainOptions (.sharedCreate 0 1))
    ⟨16, false, true⟩ 0 (by decide)⟩

/-- An `on_init` fails for an element that was used before, and the pool is destroyed with
the pointer to its data in the array. -/
theorem not_restored_init :
    ¬ ∀ (options : PoolOptions) (s : Pools) (env : PoolEnv) (pool : ℕ),
      CallbackFails s (s.step options (.sharedAcquire pool env)) →
        Intact options s (s.step options (.sharedAcquire pool env)) env pool ∧
          ActsAlike options s (s.step options (.sharedAcquire pool env)) := by
  intro h
  obtain ⟨-, halike⟩ := h plainOptions (run (step plainOptions) create [.sharedCreate 0 1,
    .sharedAcquire 0 plainEnv, .sharedRelease 0 0]) ⟨16, true, false⟩ 0 (by decide +kernel)
  have hdestroy := halike [.sharedDestroy 0]
  revert hdestroy
  decide +kernel

end Failure

end Pools

end Utils

end PomeloUdp
