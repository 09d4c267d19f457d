import Mathlib.Data.Nat.SuccPred
import PomeloUdp.Delivery.BusInvariant

/-!
# The references of a received parcel

A parcel is acquired with one reference of the bus, takes a reference to the buffer of every
fragment, and gives them back when its own count comes to zero. `handleReceiverComplete` is
the function of `Bus` with these counts beside it (`fst_handleReceiverComplete`).

`balanced_iff` says that the counts are right on every exit but one: a sequenced parcel that
is out of date when its receiver completes keeps the reference of the bus for ever.
-/

namespace PomeloUdp

namespace Delivery

/-- The reference counts of the parcels and of the buffers, and the buffers of the chunks of
each parcel. -/
structure References where
  parcels : ℕ → ℕ
  buffers : ℕ → ℕ
  chunks : ℕ → List ℕ

/-- What the pool, the array and the receive callback do at a completion. -/
structure ReferenceEnv where
  /-- The parcel that the pool has, if there is one. -/
  parcel : Option ℕ
  /-- Whether `pomelo_array_resize` of the chunks succeeds. -/
  resize : Bool
  /-- The references that the callback keeps. -/
  keeps : ℕ

namespace References

variable {refs : References} {p : ℕ}

/-- Writing the count of a buffer. -/
def modifyBuffer (f : ℕ → ℕ) (refs : References) (b : ℕ) : References :=
  { refs with buffers := Function.update refs.buffers b (f (refs.buffers b)) }

/-- `pomelo_buffer_ref`. -/
def bufferRef (refs : References) (b : ℕ) : References := refs.modifyBuffer Nat.succ b

/-- `pomelo_buffer_unref`. -/
def bufferUnref (refs : References) (b : ℕ) : References := refs.modifyBuffer Nat.pred b

/-- The parcel that `pomelo_delivery_context_acquire_parcel` gives, which nobody has. -/
def acquired (refs : References) (env : ReferenceEnv) : Option ℕ :=
  env.parcel.filter fun p => refs.parcels p = 0

/-- `pomelo_delivery_parcel_init`; the chunks were cleared at the release. -/
def parcelInit (refs : References) (p : ℕ) : References :=
  { refs with
    parcels := Function.update refs.parcels p 1
    chunks := Function.update refs.chunks p [] }

/-- `pomelo_delivery_parcel_clear_all_chunks`. -/
def clearAllChunks (refs : References) (p : ℕ) : References :=
  let refs' := (refs.chunks p).foldl bufferUnref refs
  { refs' with chunks := Function.update refs'.chunks p [] }

/-- `pomelo_delivery_parcel_ref`. -/
def parcelRef (refs : References) (p : ℕ) : References :=
  { refs with parcels := Function.update refs.parcels p (refs.parcels p + 1) }

/-- `pomelo_delivery_parcel_unref`, which releases the parcel with its last reference. -/
def parcelUnref (refs : References) (p : ℕ) : References :=
  let refs := { refs with parcels := Function.update refs.parcels p (refs.parcels p - 1) }
  if refs.parcels p = 0 then refs.clearAllChunks p else refs

/-- `pomelo_delivery_parcel_set_fragments` of a new parcel, with the buffers of its chunks. -/
def setFragments (refs : References) (env : ReferenceEnv) (p : ℕ) (views : List ℕ) :
    Option References :=
  if env.resize then
    some (views.foldl bufferRef { refs with chunks := Function.update refs.chunks p views })
  else none

/-- The receive callback keeps its references. -/
def onReceived (refs : References) (env : ReferenceEnv) (p : ℕ) : References :=
  (List.replicate env.keeps p).foldl parcelRef refs

/-- `pomelo_delivery_receiver_cleanup` on the buffers of the fragments. -/
def receiverCleanup (refs : References) (views : List ℕ) : References :=
  views.foldl bufferUnref refs

end References

/-- `pomelo_delivery_bus_handle_receiver_complete` with the references; `views` are the buffers
of the fragments of the receiver. -/
def handleReceiverComplete (s : Bus) (env : ReferenceEnv) (id : ℕ) (r : BusReceiver)
    (views : List ℕ) (refs : References) : Bus × References :=
  let s :=
    if r.type = .reliable then
      { s.require (s.incompleteReliableReceiver = some id) with incompleteReliableReceiver := none }
    else s
  if r.base.receiver.failed then (s, refs)
  else
    match refs.acquired env with
    | none => (s, refs)
    | some p =>
        let refs := refs.parcelInit p
        let chunks := views.take (setFragments r.base.receiver.fragments).length
        match refs.setFragments env p chunks with
        | none => (s, refs.parcelUnref p)
        | some refs =>
            if r.type ≠ .sequenced then
              (s.dispatchReceived r, (refs.onReceived env p).parcelUnref p)
            else if r.sequence < s.lastRecvSequencedSequence then
              -- out of date: the parcel is not unreferenced
              (s, refs)
            else
              ({ s with lastRecvSequencedSequence := r.sequence }.dispatchReceived r,
                (refs.onReceived env p).parcelUnref p)

/-- The parcel has the references that the callback kept and no others, and every buffer has
those that it had and the ones of the chunks of a parcel that is kept. -/
structure Balanced (s : Bus) (env : ReferenceEnv) (refs : References) (out : Bus × References) :
    Prop where
  parcels : ∀ p, out.2.parcels p =
    if refs.acquired env = some p ∧ out.1.delivered ≠ s.delivered then env.keeps
    else refs.parcels p
  buffers : ∀ b, out.2.buffers b = refs.buffers b +
    match refs.acquired env with
    | none => 0
    | some p => if out.2.parcels p = 0 then 0 else (out.2.chunks p).count b

/-- A sequenced parcel that could be made is older than the last one handed over. -/
def OutOfDate (s : Bus) (env : ReferenceEnv) (refs : References) (r : BusReceiver) : Prop :=
  r.base.receiver.failed = false ∧ (refs.acquired env).isSome = true ∧ env.resize = true ∧
    r.type = .sequenced ∧ r.sequence < s.lastRecvSequencedSequence

namespace References

variable {refs : References} {env : ReferenceEnv} {p : ℕ}

theorem foldl_modifyBuffer (f : ℕ → ℕ) (refs : References) (views : List ℕ) :
    views.foldl (modifyBuffer f) refs =
      { refs with buffers := fun b => f^[views.count b] (refs.buffers b) } := by
  induction views generalizing refs with
  | nil => rfl
  | cons v views ih =>
      rw [List.foldl_cons, ih]
      refine congrArg (References.mk _ · _) (funext fun b => ?_)
      by_cases hb : b = v
      · subst hb
        rw [List.count_cons_self, Function.iterate_succ_apply]
        simp only [modifyBuffer, Function.update_self]
      · rw [List.count_cons_of_ne (Ne.symm hb)]
        simp only [modifyBuffer, Function.update_of_ne hb]

theorem foldl_bufferRef (refs : References) (views : List ℕ) :
    views.foldl bufferRef refs =
      { refs with buffers := fun b => refs.buffers b + views.count b } := by
  refine (foldl_modifyBuffer Nat.succ refs views).trans ?_
  simp only [Nat.succ_iterate]

theorem foldl_bufferUnref (refs : References) (views : List ℕ) :
    views.foldl bufferUnref refs =
      { refs with buffers := fun b => refs.buffers b - views.count b } := by
  refine (foldl_modifyBuffer Nat.pred refs views).trans ?_
  simp only [Nat.pred_iterate]

theorem onReceived_eq (refs : References) (env : ReferenceEnv) (p : ℕ) :
    refs.onReceived env p =
      { refs with parcels := Function.update refs.parcels p (refs.parcels p + env.keeps) } := by
  unfold onReceived
  induction env.keeps generalizing refs with
  | zero => simp
  | succ keeps ih =>
      rw [List.replicate_succ, List.foldl_cons, ih]
      simp [parcelRef, Nat.add_assoc, Nat.add_comm]

theorem acquired_eq_some (h : refs.acquired env = some p) : refs.parcels p = 0 := by
  simpa using (Option.filter_eq_some_iff.mp h).2

theorem parcelUnref_parcelInit (hp : refs.parcels p = 0) :
    ((refs.parcelInit p).parcelUnref p).parcels = refs.parcels ∧
      ((refs.parcelInit p).parcelUnref p).buffers = refs.buffers := by
  have hparcels : Function.update refs.parcels p 0 = refs.parcels :=
    Function.update_eq_self_iff.mpr hp.symm
  simp [parcelUnref, parcelInit, clearAllChunks, hparcels]

/-- The counts behind `pomelo_delivery_parcel_set_fragments`. -/
theorem setFragments_parcelInit (views : List ℕ) (hresize : env.resize = true) :
    (refs.parcelInit p).setFragments env p views = some
      { parcels := Function.update refs.parcels p 1
        buffers := fun b => refs.buffers b + views.count b
        chunks := Function.update refs.chunks p views } := by
  rw [setFragments, if_pos hresize, foldl_bufferRef]
  simp [parcelInit]

theorem parcelUnref_onReceived (views : List ℕ) :
    let refs' := (References.onReceived
      { parcels := Function.update refs.parcels p 1
        buffers := fun b => refs.buffers b + views.count b
        chunks := Function.update refs.chunks p views } env p).parcelUnref p
    refs'.parcels = Function.update refs.parcels p env.keeps ∧
      ∀ b, refs'.buffers b = refs.buffers b +
        if env.keeps = 0 then 0 else (refs'.chunks p).count b := by
  rw [onReceived_eq]
  by_cases hkeeps : env.keeps = 0
  · simp [parcelUnref, clearAllChunks, foldl_bufferUnref, hkeeps]
  · simp [parcelUnref, hkeeps, Nat.add_comm 1]

end References

variable {s : Bus} {env : ReferenceEnv} {refs : References} {id : ℕ} {r : BusReceiver}
  {views : List ℕ}

theorem balanced_of_same {out : Bus × References} (hdelivered : out.1.delivered = s.delivered)
    (hparcels : out.2.parcels = refs.parcels) (hbuffers : out.2.buffers = refs.buffers) :
    Balanced s env refs out where
  parcels p := by
    rw [if_neg fun h => h.2 hdelivered, hparcels]
  buffers b := by
    rw [hbuffers]
    cases hp : refs.acquired env with
    | none => rfl
    | some p =>
        dsimp only
        rw [hparcels, References.acquired_eq_some hp]
        rfl

theorem balanced_of_received {p : ℕ} (hp : refs.acquired env = some p) {s' : Bus}
    (hdelivered : s'.delivered ≠ s.delivered) :
    Balanced s env refs (s', (References.onReceived
      { parcels := Function.update refs.parcels p 1
        buffers := fun b => refs.buffers b + views.count b
        chunks := Function.update refs.chunks p views } env p).parcelUnref p) := by
  obtain ⟨hparcels, hbuffers⟩ := @References.parcelUnref_onReceived refs env p views
  refine ⟨fun q => ?_, fun b => ?_⟩
  · dsimp only at hparcels ⊢
    rw [hparcels, hp]
    by_cases hq : q = p
    · subst hq
      rw [Function.update_self, if_pos ⟨rfl, hdelivered⟩]
    · rw [Function.update_of_ne hq, if_neg fun h => hq (Option.some.inj h.1).symm]
  · dsimp only at hparcels hbuffers ⊢
    rw [hbuffers, hparcels, hp]
    dsimp only
    rw [Function.update_self]

/-- `pomelo_delivery_bus_handle_receiver_complete` of the bus, which sees of the references
whether the parcel could be made. -/
theorem fst_handleReceiverComplete (s : Bus) (env : ReferenceEnv) (busEnv : BusEnv) (id : ℕ)
    (r : BusReceiver) (views : List ℕ) (refs : References)
    (hparcel : busEnv.parcel = ((refs.acquired env).isSome && env.resize)) :
    (handleReceiverComplete s env id r views refs).1 = s.handleReceiverComplete busEnv id r := by
  unfold handleReceiverComplete Bus.handleReceiverComplete
  rw [hparcel]
  cases r.base.receiver.failed with
  | true => rfl
  | false =>
      cases hp : refs.acquired env with
      | none => rfl
      | some p =>
          cases hresize : env.resize with
          | false =>
              simp only [References.setFragments, hresize]
              rfl
          | true =>
              simp only [References.setFragments_parcelInit _ hresize]
              simp only [Option.isSome_some, Bool.and_self, Bool.not_true, Bool.false_eq_true,
                if_false, apply_ite Prod.fst]

/-- The state in which the parcel is handed over or not is the one before, but for the
incomplete reliable receiver. -/
theorem balanced_iff (s : Bus) (env : ReferenceEnv) (id : ℕ) (r : BusReceiver) (views : List ℕ)
    (refs : References) :
    Balanced s env refs (handleReceiverComplete s env id r views refs) ↔
      ¬ OutOfDate s env refs r := by
  unfold handleReceiverComplete OutOfDate
  obtain ⟨s', hs', hdelivered, hlast⟩ : ∃ s', s' = (if r.type = .reliable then
      { s.require (s.incompleteReliableReceiver = some id) with incompleteReliableReceiver := none }
      else s) ∧ s'.delivered = s.delivered ∧
        s'.lastRecvSequencedSequence = s.lastRecvSequencedSequence := by
    refine ⟨_, rfl, ?_⟩
    unfold Bus.require
    split_ifs <;> exact ⟨rfl, rfl⟩
  rw [← hs']
  dsimp only
  cases r.base.receiver.failed with
  | true => exact iff_of_true (balanced_of_same hdelivered rfl rfl) (by simp)
  | false =>
      rw [if_neg Bool.false_ne_true]
      cases hp : refs.acquired env with
      | none => exact iff_of_true (balanced_of_same hdelivered rfl rfl) (by simp)
      | some p =>
          cases hresize : env.resize with
          | false =>
              obtain ⟨hparcels, hbuffers⟩ :=
                References.parcelUnref_parcelInit (References.acquired_eq_some hp)
              simp only [References.setFragments, hresize]
              exact iff_of_true (balanced_of_same hdelivered hparcels hbuffers) (by simp)
          | true =>
              dsimp only
              rw [References.setFragments_parcelInit _ hresize]
              dsimp only
              have hdispatch : ∀ s₁ : Bus, s₁.delivered = s.delivered →
                  (s₁.dispatchReceived r).delivered ≠ s.delivered := by
                intro s₁ h₁ heq
                simp [Bus.dispatchReceived, h₁] at heq
              by_cases htype : r.type = .sequenced
              · rw [if_neg (not_not.mpr htype), hlast]
                by_cases hold : r.sequence < s.lastRecvSequencedSequence
                · rw [if_pos hold]
                  refine iff_of_false (fun h => ?_) (by simp [htype, hold])
                  have hparcels := h.parcels p
                  rw [if_neg fun h' => h'.2 hdelivered, References.acquired_eq_some hp] at hparcels
                  simp at hparcels
                · rw [if_neg hold]
                  exact iff_of_true (balanced_of_received hp (hdispatch _ hdelivered))
                    (by simp [hold])
              · rw [if_pos htype]
                exact iff_of_true (balanced_of_received hp (hdispatch _ hdelivered))
                  (by simp [htype])

theorem Balanced.receiverCleanup {out : Bus × References} (h : Balanced s env refs out)
    (hheld : ∀ b, views.count b ≤ refs.buffers b) (b : ℕ) :
    (out.2.receiverCleanup views).buffers b = refs.buffers b - views.count b +
      match refs.acquired env with
      | none => 0
      | some p => if out.2.parcels p = 0 then 0 else (out.2.chunks p).count b := by
  rw [References.receiverCleanup, References.foldl_bufferUnref]
  dsimp only
  rw [h.buffers, Nat.sub_add_comm (hheld b)]

/-- A sequenced parcel of two fragments arrives and goes to a worker; the next one, of a single
fragment, is handed over before the worker is done. -/
def overtaken : List BusInput :=
  [⟨.plain 1, .recvFragmentData ⟨.sequenced, 0, 0, 1, 1⟩ [1]⟩, ⟨.plain 1, .stage 1⟩,
    ⟨.plain 1, .recvFragmentData ⟨.sequenced, 0, 1, 1, 1⟩ (List.replicate checksumBytes 1)⟩,
    ⟨.plain 1, .stage 1⟩, ⟨.plain 2, .recvFragmentData ⟨.sequenced, 0, 0, 0, 2⟩ [2]⟩,
    ⟨.plain 2, .stage 2⟩, ⟨.plain 2, .stage 2⟩]

/-- The first parcel of the run is left with one reference that nobody has. -/
theorem not_balanced_overtaken :
    ¬ ∀ (inputs : List BusInput) (env : ReferenceEnv) (id : ℕ) (views : List ℕ)
      (refs : References),
      ∀ r ∈ (Machine.run (Bus.step Channel.sampleChecksum) Bus.start inputs).receivers id,
        Balanced (Machine.run (Bus.step Channel.sampleChecksum) Bus.start inputs) env refs
          (handleReceiverComplete (Machine.run (Bus.step Channel.sampleChecksum) Bus.start inputs)
            env id r views refs) := by
  intro h
  have hbalanced := h overtaken ⟨some 0, true, 0⟩ 1 [5, 6] ⟨fun _ => 0, fun _ => 1, fun _ => []⟩
  have hsome : ((Machine.run (Bus.step Channel.sampleChecksum) Bus.start overtaken).receivers
      1).isSome = true := by
    decide +kernel
  obtain ⟨r, hr⟩ := Option.isSome_iff_exists.mp hsome
  have hparcels := (hbalanced r hr).parcels 0
  revert hparcels
  have hleak : ∀ r ∈
      (Machine.run (Bus.step Channel.sampleChecksum) Bus.start overtaken).receivers 1,
      (handleReceiverComplete (Machine.run (Bus.step Channel.sampleChecksum) Bus.start overtaken)
        ⟨some 0, true, 0⟩ 1 r [5, 6] ⟨fun _ => 0, fun _ => 1, fun _ => []⟩).2.parcels 0 = 1 := by
    decide +kernel
  rw [hleak r hr]
  simp

end Delivery

end PomeloUdp
