import PomeloUdp.Delivery.BusInvariant
import PomeloUdp.Utils.MapRefinement

/-!
# The map of the receivers

`receivers_map` of a bus is a `pomelo_map_t`, whose growth can displace entries, and `Bus` has its
entries in a list. `mapCalls` are the calls that a step of the bus makes on the map, in order, and
a `ReceiverMap` is the map that gets them. As long as no growth moves an entry or leaves the new
one where no lookup finds it (`MovesNothing`), the map has the entries of the list: `Mirrors`. With
fewer than twelve receivers in it the map does not grow for another one.
-/

namespace PomeloUdp

namespace Delivery

open Machine Utils

/-- A call on `receivers_map`. -/
abbrev ReceiverCall := MapOp UInt64 ℕ

namespace Bus

section Calls

variable (s : Bus) (env : BusEnv) (id : ℕ)

/-- `pomelo_map_remove` in `pomelo_delivery_receiver_cleanup`. -/
def releaseCalls : List ReceiverCall :=
  match s.receivers id with
  | none => []
  | some r => if r.sequenceEntry then [.del r.sequence] else []

/-- The calls of `pomelo_delivery_receiver_complete`; the entry is gone by the time a receiver
that is not cancelled is released. -/
def receiverCompleteCalls : List ReceiverCall :=
  match s.receivers id with
  | none => []
  | some r => if r.canceled then s.releaseCalls id else [.del r.sequence]

/-- The calls of `pomelo_delivery_receiver_cancel`. -/
def receiverCancelCalls : List ReceiverCall :=
  match s.receivers id with
  | none => []
  | some r =>
      if r.canceled then [] else if r.bus && r.sequenceEntry then [.del r.sequence] else []

/-- The calls of the loop of `pomelo_delivery_bus_cleanup_expired_receivers`. -/
def cleanupCalls (env : BusEnv) : ℕ → Bus → List ReceiverCall
  | 0, _ => []
  | fuel + 1, s =>
      match s.heapTop with
      | none => []
      | some id =>
          if env.now < s.expiredTime id then []
          else
            let s := s.heapRemove id
            let s := s.modifyReceiver id fun r => { r with expiredEntry := false }
            s.receiverCancelCalls id ++ cleanupCalls env fuel (s.receiverCancel env id)

/-- The calls of `pomelo_delivery_bus_ensure_recv_command` that write the map. -/
def ensureRecvCommandCalls (m : FragmentMeta) : List ReceiverCall :=
  let opening (s : Bus) : List ReceiverCall :=
    match s.mapGet m.sequence with
    | some _ => []
    | none =>
        match env.acquire with
        | none => []
        | some id => if (s.receivers id).isSome then [] else [.set m.sequence id]
  cleanupCalls env s.receiversHeap.length s ++ opening (s.cleanupExpiredReceivers env)

/-- The calls of `pomelo_delivery_bus_recv_fragment_data`. -/
def recvFragmentDataCalls (m : FragmentMeta) : List ReceiverCall :=
  if m.type = .reliable then
    if s.incompleteReliableReceiver.isSome then
      if m.sequence ≠ s.lastRecvReliableSequence then [] else s.ensureRecvCommandCalls env m
    else if m.sequence = s.lastRecvReliableSequence then []
    else s.ensureRecvCommandCalls env m
  else if m.type = .sequenced then
    let s := { s with received := s.received ++ [(m.sequence, m.fragmentIndex.toNat)] }
    if m.sequence < s.lastRecvSequencedSequence then [] else s.ensureRecvCommandCalls env m
  else s.ensureRecvCommandCalls env m

/-- The calls of a stage. -/
def executeCurrentTaskCalls : List ReceiverCall :=
  match s.receivers id with
  | none => []
  | some r => if r.stage = .complete then s.receiverCompleteCalls id else []

/-- The calls of `verify_checksum_complete`. -/
def verifyChecksumCompleteCalls (canceled : Bool) : List ReceiverCall :=
  match s.receivers id with
  | none => []
  | some r =>
      match r.stage with
      | .checking _ =>
          (s.modifyReceiver id fun r =>
            { r with canceled := r.canceled || canceled }).receiverCompleteCalls id
      | _ => []

/-- The calls of a step. The receivers that a stop cancels have no entry any more. -/
def mapCalls (i : BusInput) : List ReceiverCall :=
  if s.fault.isSome then []
  else
    match i.event with
    | .recvFragmentData m _ => if m.type = .ack then [] else s.recvFragmentDataCalls i.env m
    | .stage id => if s.queued id then s.executeCurrentTaskCalls id else []
    | .verifyChecksumComplete id canceled _ =>
        match s.receivers id with
        | none => []
        | some r => if r.checksumVerifyTask then s.verifyChecksumCompleteCalls id canceled else []
    | .processSending => []
    | .processSendingDeferred => if s.processing && s.stopping then [.clear] else []
    | .stop => if s.processing then [] else [.clear]

end Calls

end Bus

section Entries

/-- A call on the list of the entries. -/
def writeReceivers (l : List (UInt64 × ℕ)) : ReceiverCall → List (UInt64 × ℕ)
  | .set sequence id => (sequence, id) :: l.eraseP (·.1 = sequence)
  | .del sequence => l.eraseP (·.1 = sequence)
  | .clear => []
  | .get _ | .has _ => l

variable {l : List (UInt64 × ℕ)} {sequence : UInt64} {id : ℕ}

theorem erase_eq_eraseP (hkeys : (l.map Prod.fst).Nodup) (hmem : (sequence, id) ∈ l) :
    l.erase (sequence, id) = l.eraseP (·.1 = sequence) := by
  induction l with
  | nil => cases hmem
  | cons e l ih =>
      rw [List.map_cons, List.nodup_cons] at hkeys
      rcases List.mem_cons.mp hmem with rfl | hmem
      · simp
      · have hne : e.1 ≠ sequence := fun heq =>
          hkeys.1 (List.mem_map.mpr ⟨_, hmem, heq.symm⟩)
        have hother : e ≠ (sequence, id) := fun heq => hne (congrArg Prod.fst heq)
        rw [List.erase_cons_tail (by simpa using hother),
          List.eraseP_cons_of_neg (by simpa using hne), ih hkeys.2 hmem]

theorem eraseP_eq_self (hnot : ∀ j, (sequence, j) ∉ l) : l.eraseP (·.1 = sequence) = l := by
  refine List.eraseP_of_forall_not fun e he heq => ?_
  rw [decide_eq_true_eq] at heq
  exact hnot e.2 (heq ▸ he)

theorem nodup_writeReceivers (hkeys : (l.map Prod.fst).Nodup) (call : ReceiverCall) :
    ((writeReceivers l call).map Prod.fst).Nodup := by
  have herased : ∀ sequence, ((l.eraseP (·.1 = sequence)).map Prod.fst).Nodup := fun sequence =>
    hkeys.sublist (List.eraseP_sublist.map _)
  cases call with
  | set sequence id =>
      rw [writeReceivers, List.map_cons, List.nodup_cons]
      refine ⟨fun hmem => ?_, herased sequence⟩
      obtain ⟨e, he, heq⟩ := List.mem_map.mp hmem
      obtain ⟨key, id⟩ := e
      obtain rfl : key = sequence := heq
      have hold : (key, id) ∈ l := List.mem_of_mem_eraseP he
      rw [← erase_eq_eraseP hkeys hold, List.Nodup.mem_erase_iff hkeys.of_map] at he
      exact he.1 rfl
  | del sequence => exact herased sequence
  | clear => exact List.nodup_nil
  | get _ | has _ => exact hkeys

theorem lookup_eraseP (hkeys : (l.map Prod.fst).Nodup) (sequence other : UInt64) :
    (l.eraseP (·.1 = sequence)).lookup other =
      if sequence = other then none else l.lookup other := by
  induction l with
  | nil => simp
  | cons e l ih =>
      rw [List.map_cons, List.nodup_cons] at hkeys
      by_cases he : e.1 = sequence
      · rw [List.eraseP_cons_of_pos (by simpa using he)]
        by_cases hother : sequence = other
        · rw [if_pos hother, List.lookup_eq_none_iff]
          intro k hk
          rw [bne_iff_ne]
          intro heq
          exact hkeys.1 (List.mem_map.mpr ⟨k, hk, (he.trans (hother.trans heq)).symm⟩)
        · rw [if_neg hother, List.lookup_cons, he, beq_false_of_ne (Ne.symm hother)]
      · rw [List.eraseP_cons_of_neg (by simpa using he), List.lookup_cons, List.lookup_cons,
          ih hkeys.2]
        by_cases hother : other = e.1
        · subst hother
          simp [Ne.symm he]
        · rw [beq_false_of_ne hother]

end Entries

namespace Bus

section Steps

variable {s : Bus} {env : BusEnv} {id : ℕ} {r : BusReceiver}

theorem Stored.erase_entry (h : Stored s) (hr : s.receivers id = some r)
    (hentry : r.sequenceEntry = true) :
    s.receiversMap.erase (r.sequence, id) = run writeReceivers s.receiversMap [.del r.sequence] :=
  erase_eq_eraseP h.keys ((h.receiver id r hr).mapped hentry)

theorem receiversMap_receiverCancel (h : Stored s) (hr : s.receivers id = some r)
    (hcanceled : r.canceled = false) :
    (s.receiverCancel env id).receiversMap =
      run writeReceivers s.receiversMap (s.receiverCancelCalls id) := by
  obtain ⟨hbus, hentry⟩ := (h.receiver id r hr).attached hcanceled
  rw [receiverCancel_eq hr hcanceled hbus]
  simp only [receiverCancelCalls, hr, hcanceled, hbus, hentry, Bool.false_eq_true, if_false,
    Bool.and_self, if_true]
  exact h.erase_entry hr hentry

theorem receiversMap_cleanupLoop (env : BusEnv) (fuel : ℕ) (h : Stored s) :
    (cleanupLoop env fuel s).receiversMap =
      run writeReceivers s.receiversMap (cleanupCalls env fuel s) := by
  induction fuel generalizing s with
  | zero => rfl
  | succ fuel ih =>
      unfold cleanupLoop cleanupCalls
      cases htop : s.heapTop with
      | none => rfl
      | some id =>
          dsimp only
          split
          · rfl
          · obtain ⟨r, hr, -, hexpired⟩ := h.expiring id (List.argmin_mem htop)
            have hplaced := h.receiver id r hr
            have hcanceled := hplaced.not_canceled hexpired
            have hbus := (hplaced.attached hcanceled).1
            have hcalls : ((s.heapRemove id).modifyReceiver id fun r =>
                { r with expiredEntry := false }).receiverCancelCalls id =
                  s.receiverCancelCalls id := by
              simp [receiverCancelCalls, modifyReceiver, heapRemove, hr]
            rw [expire_eq hr hexpired hcanceled hbus, ih (h.receiverCancel hr hcanceled), hcalls,
              receiversMap_receiverCancel h hr hcanceled, run_append]

theorem receiversMap_ensureRecvCommand (h : Stored s) (env : BusEnv) (m : FragmentMeta) :
    (s.ensureRecvCommand env m).1.receiversMap =
      run writeReceivers s.receiversMap (s.ensureRecvCommandCalls env m) := by
  have hcleaned := receiversMap_cleanupLoop env s.receiversHeap.length h
  have hstored : Stored (s.cleanupExpiredReceivers env) :=
    (moves_cleanupLoop True env s.receiversHeap.length h).1.stored h
  unfold ensureRecvCommand ensureRecvCommandCalls
  change (s.cleanupExpiredReceivers env).receiversMap = _ at hcleaned
  dsimp only
  rw [run_append, ← hcleaned]
  generalize s.cleanupExpiredReceivers env = s' at hstored ⊢
  cases hget : s'.mapGet m.sequence with
  | some id =>
      dsimp only
      cases hr : s'.receivers id with
      | none => rfl
      | some r =>
          dsimp only
          split <;> rfl
  | none =>
      dsimp only
      cases env.acquire with
      | none => rfl
      | some id =>
          dsimp only
          split
          · rfl
          · set s₂ : Bus := { s' with
              receivers := Function.update s'.receivers id (some (.init m))
              receiversMap := (m.sequence, id) :: s'.receiversMap } with hs₂
            change (s₂.opened id m).receiversMap = (m.sequence, id) :: s'.receiversMap.eraseP _
            rw [(opened_eq s₂ id m).2.1, eraseP_eq_self (mapGet_eq_none hget)]

theorem receiversMap_addFragment (s : Bus) (id : ℕ) (m : FragmentMeta) (content : Bytes) :
    (s.addFragment id m content).receiversMap = s.receiversMap := by
  unfold addFragment
  split
  · rfl
  · dsimp only
    split <;> rfl

theorem receiversMap_recvFragmentData (h : Stored s) (env : BusEnv) (m : FragmentMeta)
    (content : Bytes) :
    (s.recvFragmentData env m content).receiversMap =
      run writeReceivers s.receiversMap (s.recvFragmentDataCalls env m) := by
  have hensured : ∀ {s : Bus}, Stored s →
      (given m content (s.ensureRecvCommand env m)).receiversMap =
        run writeReceivers s.receiversMap (s.ensureRecvCommandCalls env m) := by
    intro s h
    rw [← receiversMap_ensureRecvCommand h env m]
    unfold given
    split
    · rename_i heq
      rw [heq]
    · rename_i heq
      rw [heq, receiversMap_addFragment]
  unfold recvFragmentData recvFragmentDataCalls
  dsimp only
  split
  · split
    · split
      · rfl
      · exact hensured h
    · split
      · rfl
      · exact hensured h
  · split
    · split
      · rfl
      · exact hensured (h.requeued rfl rfl rfl fun _ hj => .inl hj)
    · exact hensured h

theorem receiversMap_receiverComplete (h : Stored s) (env : BusEnv)
    (hr : s.receivers id = some r) (hcanceled : r.canceled = false) :
    (s.receiverComplete env id).receiversMap =
      run writeReceivers s.receiversMap (s.receiverCompleteCalls id) := by
  obtain ⟨hbus, hentry⟩ := (h.receiver id r hr).attached hcanceled
  rw [(receiverComplete_eq env hr hcanceled hbus hentry).2.1]
  simp only [receiverCompleteCalls, hr, hcanceled, Bool.false_eq_true, if_false]
  exact h.erase_entry hr hentry

theorem receiversMap_executeCurrentTask (h : Stored s) (env : BusEnv) (id : ℕ) :
    (s.executeCurrentTask env id).receiversMap =
      run writeReceivers s.receiversMap (s.executeCurrentTaskCalls id) := by
  unfold executeCurrentTaskCalls
  cases hr : s.receivers id with
  | none => simp only [executeCurrentTask, hr, run_nil]
  | some r =>
      dsimp only
      split
      · rename_i hstage
        obtain ⟨hcanceled, -⟩ := h.attached_of_complete hr hstage
        rw [executeCurrentTask_of_complete env hr hstage]
        exact receiversMap_receiverComplete (h.dequeued id) env hr hcanceled
      · rename_i hstage
        obtain ⟨r', hstaged⟩ := staged_executeCurrentTask env hr hstage
        exact hstaged.map

theorem receiversMap_verifyChecksumComplete (h : Stored s) (checksum : Checksum) (env : BusEnv)
    (id : ℕ) (canceled computed : Bool) :
    (s.verifyChecksumComplete checksum env id canceled computed).receiversMap =
      run writeReceivers s.receiversMap (s.verifyChecksumCompleteCalls id canceled) := by
  cases hr : s.receivers id with
  | none => simp [Bus.verifyChecksumComplete, verifyChecksumCompleteCalls, hr]
  | some r =>
      cases hstage : r.stage with
      | checking embedded =>
          have hplaced := h.receiver id r hr
          have hcalls : s.verifyChecksumCompleteCalls id canceled =
              if r.canceled || canceled then if r.sequenceEntry then [.del r.sequence] else []
              else [.del r.sequence] := by
            simp [verifyChecksumCompleteCalls, hr, hstage, receiverCompleteCalls, releaseCalls,
              modifyReceiver]
          rw [hcalls]
          cases hcanceled : r.canceled || canceled with
          | true =>
              rw [verifyChecksumComplete_eq_of_canceled h checksum env hr hstage
                (by rwa [Bool.or_comm]), if_pos rfl]
              dsimp only
              cases hentry : r.sequenceEntry with
              | false => rfl
              | true => exact h.erase_entry hr hentry
          | false =>
              obtain ⟨hbus, hentry⟩ := hplaced.attached (Bool.or_eq_false_iff.mp hcanceled).1
              rw [verifyChecksumComplete_eq_of_computed checksum env hr hstage
                (by rwa [Bool.or_comm])]
              have hself : (s.modifyReceiver id (.verified checksum embedded computed)).receivers
                  id = some (r.verified checksum embedded computed) := by
                simp [modifyReceiver, hr]
              have hsequence := (Receiver.verifyChecksumComplete_eq checksum hstage computed).1
              rw [(receiverComplete_eq env hself rfl hbus hentry).2.1]
              change s.receiversMap.erase ((r.base.receiver.verifyChecksumComplete checksum embedded
                computed).sequence, id) = _
              rw [hsequence]
              exact h.erase_entry hr hentry
      | _ => simp [Bus.verifyChecksumComplete, verifyChecksumCompleteCalls, hr, hstage]

theorem receiversMap_step (h : Stored s) (checksum : Checksum) (i : BusInput) :
    (s.step checksum i).receiversMap = run writeReceivers s.receiversMap (s.mapCalls i) := by
  unfold Bus.step mapCalls
  split
  · rfl
  · cases i.event with
    | recvFragmentData m content =>
        dsimp only
        split
        · rfl
        · exact receiversMap_recvFragmentData h i.env m content
    | stage id =>
        dsimp only
        split
        · exact receiversMap_executeCurrentTask h i.env id
        · rfl
    | verifyChecksumComplete id canceled computed =>
        dsimp only
        cases s.receivers id with
        | none => rfl
        | some r =>
            dsimp only
            split
            · exact receiversMap_verifyChecksumComplete h checksum i.env id canceled computed
            · rfl
    | processSending => rfl
    | processSendingDeferred =>
        dsimp only
        cases hprocessing : s.processing with
        | false => rfl
        | true =>
            unfold processSendingDeferred
            cases s.stopping <;> simp [stop, stopReceivers, writeReceivers]
    | stop =>
        dsimp only
        unfold stop
        split <;> rfl

end Steps

end Bus

/-- The options of `receivers_map`, with the comparison against the load factor. -/
def receiverOptions (overLoad : ℕ → ℕ → Bool) : MapOptions UInt64 :=
  { Utils.Map.uint64Options with overLoad := overLoad }

/-- `receivers_map`. -/
structure ReceiverMap where
  /-- `1.0f * size / nbuckets > load_factor`. -/
  overLoad : ℕ → ℕ → Bool
  map : Utils.Map UInt64 ℕ

namespace ReceiverMap

/-- The options of the map. -/
def options (m : ReceiverMap) : MapOptions UInt64 := receiverOptions m.overLoad

/-- The map of a bus that has been allocated. -/
def create (overLoad : ℕ → ℕ → Bool) : ReceiverMap :=
  ⟨overLoad, Utils.Map.create (receiverOptions overLoad)⟩

/-- `pomelo_map_get`. -/
def get (m : ReceiverMap) (sequence : UInt64) : Option ℕ := m.map.get m.options sequence

/-- The map after the calls. -/
def write (m : ReceiverMap) (calls : List ReceiverCall) : ReceiverMap :=
  { m with map := run (next (Utils.Map.step m.options)) m.map calls }

/-- No growth of the map in the calls moves an entry, or leaves the new one where no lookup
finds it. -/
def MovesNothing (m : ReceiverMap) (calls : List ReceiverCall) : Prop :=
  Along (next (Utils.Map.step m.options)) (Utils.Map.GrowthMovesNothing m.options) m.map calls

instance (m : ReceiverMap) (calls : List ReceiverCall) : Decidable (m.MovesNothing calls) :=
  inferInstanceAs (Decidable (Along _ (Utils.Map.GrowthMovesNothing m.options) _ _))

/-- The finite map of the entries in a list. -/
def table (m : ReceiverMap) (l : List (UInt64 × ℕ)) : SpecMap m.options.toKeyFunctions ℕ :=
  l.foldr (fun e table => table.insert (m.options.key e.1) e.2) ∅

/-- The map has the entries of the list. -/
def Mirrors (m : ReceiverMap) (l : List (UInt64 × ℕ)) : Prop :=
  Utils.Map.Represents m.options m.map (m.table l)

section Mirrors

variable {m : ReceiverMap} {l : List (UInt64 × ℕ)}

theorem compare_options (m : ReceiverMap) (a b : UInt64) : m.options.compare a b = (a == b) := rfl

theorem lookup_table (m : ReceiverMap) (l : List (UInt64 × ℕ)) (sequence : UInt64) :
    (m.table l).lookup (m.options.key sequence) = l.lookup sequence := by
  induction l with
  | nil => rfl
  | cons e l ih =>
      change ((m.table l).insert (m.options.key e.1) e.2).lookup _ = _
      rw [Utils.Map.lookup_insert_key, ih, compare_options, List.lookup_cons]
      by_cases he : e.1 = sequence
      · simp [he]
      · rw [if_neg (by simpa using he), beq_false_of_ne (Ne.symm he)]

theorem card_table (m : ReceiverMap) (hkeys : (l.map Prod.fst).Nodup) :
    (m.table l).keys.card = l.length := by
  induction l with
  | nil => rfl
  | cons e l ih =>
      rw [List.map_cons, List.nodup_cons] at hkeys
      have hmem : m.options.key e.1 ∉ m.table l := by
        rw [← Finmap.lookup_eq_none, lookup_table, List.lookup_eq_none_iff]
        intro k hk
        rw [bne_iff_ne]
        intro heq
        exact hkeys.1 (List.mem_map.mpr ⟨k, hk, heq.symm⟩)
      have hinserted : (m.table (e :: l)).keys = insert (m.options.key e.1) (m.table l).keys := by
        ext a
        change a ∈ ((m.table l).insert (m.options.key e.1) e.2).keys ↔ _
        rw [Finmap.mem_keys, Finmap.mem_insert, Finset.mem_insert, Finmap.mem_keys]
      rw [hinserted, Finset.card_insert_of_notMem (by rwa [Finmap.mem_keys]), ih hkeys.2,
        List.length_cons]

theorem table_writeReceivers (m : ReceiverMap) (hkeys : (l.map Prod.fst).Nodup)
    (call : ReceiverCall) :
    (SpecMap.step (m.table l) call).1 = m.table (writeReceivers l call) := by
  refine Finmap.ext_lookup fun key => ?_
  obtain ⟨sequence, rfl⟩ : ∃ sequence, m.options.key sequence = key := Quotient.exists_rep key
  rw [lookup_table]
  cases call with
  | set other id =>
      simp only [SpecMap.step, writeReceivers, Utils.Map.lookup_insert_key, compare_options,
        lookup_table, List.lookup_cons, lookup_eraseP hkeys, beq_iff_eq]
      by_cases hother : other = sequence
      · simp [hother]
      · rw [if_neg hother, if_neg hother, beq_false_of_ne (Ne.symm hother)]
  | del other =>
      simp only [SpecMap.step, writeReceivers, Utils.Map.lookup_erase_key, compare_options,
        lookup_table, lookup_eraseP hkeys, beq_iff_eq]
  | clear => rfl
  | get _ | has _ => exact lookup_table m l sequence

theorem mirrors_create (overLoad : ℕ → ℕ → Bool) : Mirrors (create overLoad) [] :=
  Utils.Map.represents_create _

theorem Mirrors.get_eq (h : m.Mirrors l) (sequence : UInt64) : m.get sequence = l.lookup sequence :=
  (h.lookup sequence).trans (m.lookup_table l sequence)

theorem Mirrors.size_eq (h : m.Mirrors l) (hkeys : (l.map Prod.fst).Nodup) :
    m.map.size = l.length :=
  h.size.trans (m.card_table hkeys)

theorem Mirrors.write (h : m.Mirrors l) (hkeys : (l.map Prod.fst).Nodup)
    {calls : List ReceiverCall} (hcalls : m.MovesNothing calls) :
    (m.write calls).Mirrors (run writeReceivers l calls) := by
  induction calls generalizing m l with
  | nil => exact h
  | cons call calls ih =>
      obtain ⟨hcall, hcalls⟩ := hcalls
      have hnext : (m.write [call]).Mirrors (writeReceivers l call) := by
        have hstep := (h.step hcall.keepsPlaces).1
        rwa [m.table_writeReceivers hkeys] at hstep
      exact ih hnext (nodup_writeReceivers hkeys call) hcalls

theorem Mirrors.step {s : Bus} (h : m.Mirrors s.receiversMap) (hs : s.Stored) (checksum : Checksum)
    {i : BusInput} (hi : m.MovesNothing (s.mapCalls i)) :
    (m.write (s.mapCalls i)).Mirrors (s.step checksum i).receiversMap := by
  rw [Bus.receiversMap_step hs]
  exact h.write hs.keys hi

end Mirrors

section Capacity

variable {m : ReceiverMap} {l : List (UInt64 × ℕ)}

theorem movesNothing_of_shut (m : ReceiverMap) {calls : List ReceiverCall}
    (hcalls : calls.countP Utils.Map.adds = 0) : m.MovesNothing calls :=
  Utils.Map.movesNothing_of_shut m.map hcalls

theorem nbuckets_create (overLoad : ℕ → ℕ → Bool) : (create overLoad).map.nbuckets = 16 :=
  Utils.Map.resizeBuckets_nbuckets _ (show 0 < 16 by decide)

theorem nbuckets_le_write (m : ReceiverMap) (calls : List ReceiverCall) :
    m.map.nbuckets ≤ (m.write calls).map.nbuckets := Utils.Map.nbuckets_le_run m.map calls

theorem Mirrors.movesNothing_of_few (h : m.Mirrors l) (hkeys : (l.map Prod.fst).Nodup)
    (hload : ∀ size nbuckets, size ≤ 12 → 16 ≤ nbuckets → m.overLoad size nbuckets = false)
    (hbuckets : 16 ≤ m.map.nbuckets) {calls : List ReceiverCall}
    (hfew : l.length + calls.countP Utils.Map.adds ≤ 12) : m.MovesNothing calls := by
  rw [← h.size_eq hkeys] at hfew
  exact Utils.Map.movesNothing_of_few hload hbuckets hfew

end Capacity

end ReceiverMap

namespace Bus

section Openings

variable {s : Bus} {env : BusEnv}

theorem countP_adds_releaseCalls (s : Bus) (id : ℕ) :
    (s.releaseCalls id).countP Utils.Map.adds = 0 := by
  unfold releaseCalls
  repeat' split
  all_goals rfl

theorem countP_adds_receiverCompleteCalls (s : Bus) (id : ℕ) :
    (s.receiverCompleteCalls id).countP Utils.Map.adds = 0 := by
  unfold receiverCompleteCalls
  split
  · rfl
  · split
    · exact countP_adds_releaseCalls s id
    · rfl

theorem countP_adds_cleanupCalls (env : BusEnv) (fuel : ℕ) (s : Bus) :
    (cleanupCalls env fuel s).countP Utils.Map.adds = 0 := by
  induction fuel generalizing s with
  | zero => rfl
  | succ fuel ih =>
      unfold cleanupCalls
      split
      · rfl
      · dsimp only
        split
        · rfl
        · rw [List.countP_append, ih, Nat.add_zero]
          unfold receiverCancelCalls
          repeat' split
          all_goals rfl

theorem countP_adds_recvFragmentDataCalls (s : Bus) (env : BusEnv) (m : FragmentMeta) :
    (s.recvFragmentDataCalls env m).countP Utils.Map.adds ≤ 1 := by
  have hensured : ∀ s : Bus, (s.ensureRecvCommandCalls env m).countP Utils.Map.adds ≤ 1 := by
    intro s
    unfold ensureRecvCommandCalls
    dsimp only
    rw [List.countP_append, countP_adds_cleanupCalls, Nat.zero_add]
    repeat' split
    all_goals first | exact Nat.zero_le 1 | exact Nat.le_refl 1
  unfold recvFragmentDataCalls
  dsimp only
  repeat' split
  all_goals first | exact hensured _ | exact Nat.zero_le 1

theorem countP_adds_mapCalls (s : Bus) {i : BusInput}
    (hevent : ∀ m content, i.event ≠ .recvFragmentData m content) :
    (s.mapCalls i).countP Utils.Map.adds = 0 := by
  unfold mapCalls
  split
  · rfl
  · cases heq : i.event with
    | recvFragmentData m content => exact absurd heq (hevent m content)
    | stage id =>
        dsimp only
        unfold executeCurrentTaskCalls
        repeat' split
        all_goals first | exact countP_adds_receiverCompleteCalls _ _ | rfl
    | verifyChecksumComplete id canceled computed =>
        dsimp only
        unfold verifyChecksumCompleteCalls
        repeat' split
        all_goals first | exact countP_adds_receiverCompleteCalls _ _ | rfl
    | processSending => rfl
    | processSendingDeferred =>
        dsimp only
        split <;> rfl
    | stop =>
        dsimp only
        split <;> rfl

end Openings

end Bus

end Delivery

end PomeloUdp
