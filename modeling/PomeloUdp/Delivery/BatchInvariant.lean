import Mathlib.Data.List.Nodup
import Mathlib.Data.List.Perm.Subperm
import PomeloUdp.Delivery.Batch
import PomeloUdp.Library.Run

/-!
# The accounting of batch senders

The completed counter of a sender is the number of results it has and, once its loop is over,
of the dispatchers that it could not make. `Tallied` ties the senders and the dispatchers to
what has happened, and each operation keeps it.
-/

namespace PomeloUdp

namespace Delivery

open Machine
open Base (Pipeline)

namespace BatchHistory

variable {h : BatchHistory} {d : ℕ} {success : Bool}

/-- Every dispatcher is created once, and reports at most once. -/
structure Sound (h : BatchHistory) : Prop where
  created : h.created.Nodup
  reported : (h.reported.map Prod.fst).Nodup
  subset : h.reported.map Prod.fst ⊆ h.created

/-- How many dispatchers ended neither failed nor cancelled. -/
def successes (h : BatchHistory) : ℕ := h.reported.countP Prod.snd

/-- The sender has completed, once, and every dispatcher has reported. -/
def Settled (h : BatchHistory) : Prop :=
  h.completed = [h.successes] ∧ ∀ d ∈ h.created, d ∈ h.reported.map Prod.fst

theorem Sound.length_le (h' : h.Sound) : h.reported.length ≤ h.created.length := by
  rw [← List.length_map Prod.fst]
  exact (List.subperm_of_subset h'.reported h'.subset).length_le

theorem Sound.all_reported (h' : h.Sound) (hlength : h.created.length ≤ h.reported.length) :
    ∀ d ∈ h.created, d ∈ h.reported.map Prod.fst := by
  have hperm := (List.subperm_of_subset h'.reported h'.subset).perm_of_length_le
    (by rwa [List.length_map])
  exact fun d hd => hperm.symm.subset hd

theorem Sound.exists_unreported (h' : h.Sound) (hlength : h.reported.length < h.created.length) :
    ∃ d ∈ h.created, d ∉ h.reported.map Prod.fst := by
  by_contra hall
  have hsub : h.created ⊆ h.reported.map Prod.fst := fun d hd => by
    by_contra hd'
    exact hall ⟨d, hd, hd'⟩
  have hle := (List.subperm_of_subset h'.created hsub).length_le
  rw [List.length_map] at hle
  exact absurd hlength (Nat.not_lt.mpr hle)

theorem Sound.create (h' : h.Sound) (hd : d ∉ h.created) :
    Sound { h with created := h.created ++ [d] } where
  created := by
    rw [List.nodup_append]
    refine ⟨h'.created, List.nodup_singleton d, fun a ha b hb hab => ?_⟩
    rw [List.mem_singleton.mp hb] at hab
    exact hd (hab ▸ ha)
  reported := h'.reported
  subset := List.subset_append_of_subset_left _ h'.subset

theorem Sound.report (h' : h.Sound) (hd : d ∈ h.created) (hnew : d ∉ h.reported.map Prod.fst) :
    Sound { h with reported := h.reported ++ [(d, success)] } where
  created := h'.created
  reported := by
    rw [List.map_append, List.nodup_append]
    refine ⟨h'.reported, List.nodup_singleton d, fun a ha b hb hab => ?_⟩
    rw [hab, List.mem_singleton.mp hb] at ha
    exact hnew ha
  subset := by
    rw [List.map_append]
    refine List.append_subset.mpr ⟨h'.subset, ?_⟩
    rintro a ha
    rw [List.mem_singleton.mp ha]
    exact hd

theorem successes_report (h : BatchHistory) (d : ℕ) (success : Bool) :
    successes { h with reported := h.reported ++ [(d, success)] } =
      h.successes + success.toNat := by
  cases success <;> simp [successes, List.countP_append]

end BatchHistory

/-- Where a sender is, from its pipeline, its completed counter, its worker task, its loop and
whether it calls back. -/
inductive SenderStage (records success : ℕ) (h : BatchHistory) :
    Pipeline → ℕ → Bool → Option DispatchLoop → Bool → Prop where
  | checksum (created : h.created = []) (reported : h.reported = [])
      (completed : h.completed = []) :
      SenderStage records success h ⟨3, 0, false, false, false⟩ 0 true none false
  | dispatching (next : Bool) (loop : DispatchLoop)
      (last : next = true ↔ h.reported.length = records ∧ h.reported ≠ [])
      (count : h.created.length + loop.failedCounter + loop.rest.length = records)
      (completed : h.completed = []) :
      SenderStage records success h ⟨3, 1, true, next, false⟩ h.reported.length false (some loop)
        false
  | waiting (completedCounter : ℕ)
      (count : completedCounter + h.created.length = h.reported.length + records)
      (unfinished : completedCounter < records) (completed : h.completed = []) :
      SenderStage records success h ⟨3, 1, false, false, false⟩ completedCounter false none false
  | reporting (pipeline : Pipeline) (completedCounter : ℕ) (count : completedCounter ≤ records)
      (all : h.created.length ≤ h.reported.length) (completed : h.completed = [success]) :
      SenderStage records success h pipeline completedCounter false none true

/-- A sender and what has happened to it. -/
def BatchSender.Sound (x : BatchSender) (h : BatchHistory) : Prop :=
  x.successCounter = h.successes ∧
    SenderStage x.records.length x.successCounter h x.pipeline x.completedCounter
      x.checksumUpdateTask x.loop x.reporting

namespace BatchSender.Sound

variable {x : BatchSender} {h : BatchHistory}

theorem of_reporting (hx : x.Sound h) (hreporting : x.reporting = true) :
    h.created.length ≤ h.reported.length ∧ h.completed = [x.successCounter] := by
  obtain ⟨-, hstage⟩ := hx
  generalize x.pipeline = pipeline, x.completedCounter = completed, x.checksumUpdateTask = task,
    x.loop = loop at hstage
  rw [hreporting] at hstage
  cases hstage with
  | reporting _ _ _ hall hcompleted => exact ⟨hall, hcompleted⟩

theorem of_not_reporting (hx : x.Sound h) (hreporting : x.reporting = false) :
    h.completed = [] := by
  obtain ⟨-, hstage⟩ := hx
  generalize x.pipeline = pipeline, x.completedCounter = completed, x.checksumUpdateTask = task,
    x.loop = loop at hstage
  rw [hreporting] at hstage
  cases hstage with
  | checksum _ _ hcompleted => exact hcompleted
  | dispatching _ _ _ _ hcompleted => exact hcompleted
  | waiting _ _ _ hcompleted => exact hcompleted

theorem of_loop (hx : x.Sound h) {loop : DispatchLoop} (hloop : x.loop = some loop) :
    ∃ next, x.pipeline = ⟨3, 1, true, next, false⟩ ∧ x.completedCounter = h.reported.length ∧
      x.checksumUpdateTask = false ∧ x.reporting = false ∧
      (next = true ↔ h.reported.length = x.records.length ∧ h.reported ≠ []) ∧
      h.created.length + loop.failedCounter + loop.rest.length = x.records.length ∧
      h.completed = [] := by
  obtain ⟨-, hstage⟩ := hx
  generalize x.pipeline = pipeline, x.completedCounter = completed, x.checksumUpdateTask = task,
    x.reporting = reporting at hstage ⊢
  rw [hloop] at hstage
  cases hstage with
  | dispatching next _ hlast hcount hcompleted =>
      exact ⟨next, rfl, rfl, rfl, rfl, hlast, hcount, hcompleted⟩

theorem completedCounter_le (hx : x.Sound h) (h' : h.Sound) :
    x.completedCounter ≤ x.records.length := by
  have hle := h'.length_le
  obtain ⟨-, hstage⟩ := hx
  generalize x.pipeline = pipeline, x.completedCounter = completed, x.checksumUpdateTask = task,
    x.loop = loop, x.reporting = reporting at hstage ⊢
  cases hstage with
  | checksum => exact Nat.zero_le _
  | dispatching _ _ _ hcount => omega
  | waiting _ _ hopen => exact Nat.le_of_lt hopen
  | reporting _ _ hcount => exact hcount

theorem unfinished (hx : x.Sound h) (h' : h.Sound) (hopen : h.completed = []) :
    x.checksumUpdateTask = true ∨ x.loop.isSome ∨
      ∃ d ∈ h.created, d ∉ h.reported.map Prod.fst := by
  obtain ⟨-, hstage⟩ := hx
  generalize x.pipeline = pipeline, x.completedCounter = completed, x.checksumUpdateTask = task,
    x.loop = loop, x.reporting = reporting at hstage ⊢
  cases hstage with
  | checksum => exact .inl rfl
  | dispatching => exact .inr (.inl rfl)
  | waiting _ hcount hunfinished => exact .inr (.inr (h'.exists_unreported (by omega)))
  | reporting _ _ _ _ hcompleted => rw [hopen] at hcompleted; cases hcompleted

end BatchSender.Sound

namespace Batch

variable {s s' : Batch} {n d b : ℕ} {x : BatchSender} {y : BatchDispatcher} {h : BatchHistory}
  {p : Pipeline}

section Put

/-- A sender and its history replaced. -/
def put (s : Batch) (n : ℕ) (o : Option BatchSender) (h : BatchHistory) : Batch :=
  { s with senders := Function.update s.senders n o, history := Function.update s.history n h }

theorem put_self (hx : s.senders n = some x) : s.put n (some x) (s.history n) = s := by
  unfold put
  rw [← hx, Function.update_eq_self, Function.update_eq_self]

@[simp] theorem put_put (s : Batch) (n : ℕ) (o o' : Option BatchSender) (h h' : BatchHistory) :
    (s.put n o h).put n o' h' = s.put n o' h' := by
  simp [put]

@[simp] theorem senders_put (s : Batch) (n : ℕ) (o : Option BatchSender) (h : BatchHistory) :
    (s.put n o h).senders n = o := Function.update_self ..

@[simp] theorem history_put (s : Batch) (n : ℕ) (o : Option BatchSender) (h : BatchHistory) :
    (s.put n o h).history n = h := Function.update_self ..

@[simp] theorem modifySender_put (s : Batch) (n : ℕ) (x : BatchSender) (h : BatchHistory)
    (f : BatchSender → BatchSender) :
    (s.put n (some x) h).modifySender n f = s.put n (some (f x)) h := by
  simp [modifySender, put]

@[simp] theorem note_put (s : Batch) (n : ℕ) (o : Option BatchSender) (h : BatchHistory)
    (f : BatchHistory → BatchHistory) : (s.put n o h).note n f = s.put n o (f h) := by
  simp [note, put]

@[simp] theorem senderComplete_put (s : Batch) (n : ℕ) (x : BatchSender) (h : BatchHistory) :
    (s.put n (some x) h).senderComplete n = s.put n
      (if x.canceled || x.system then none else some { x with reporting := true })
      { h with completed := h.completed ++ [x.successCounter] } := by
  unfold senderComplete
  simp only [senders_put, note_put, modifySender_put]
  cases x.canceled <;> cases x.system <;> simp [senderRelease, put]

@[simp] theorem senderExecute_put_last (s : Batch) (n : ℕ) (x : BatchSender) (h : BatchHistory)
    (busy next finish : Bool) :
    (s.put n (some x) h).senderExecute n ⟨3, 2, busy, next, finish⟩ = s.put n
      (if x.canceled || x.system then none
        else some { x with pipeline := ⟨3, 2, true, next, finish⟩, reporting := true })
      { h with completed := h.completed ++ [x.successCounter] } := by
  simp [senderExecute, Pipeline.last]

@[simp] theorem senderExecute_put_dispatch (s : Batch) (n : ℕ) (x : BatchSender)
    (h : BatchHistory) (busy next finish : Bool) :
    (s.put n (some x) h).senderExecute n ⟨3, 1, busy, next, finish⟩ = s.put n
      (some { x with pipeline := ⟨3, 1, true, next, finish⟩, loop := some ⟨x.records, 0⟩ }) h := by
  simp [senderExecute, Pipeline.last, senderDispatch]

end Put

section Fits

/-- A sender that is live is at the stage of its history; one that is not has completed. -/
def Fits : Option BatchSender → BatchHistory → Prop
  | none, h => h.Settled
  | some x, h => x.Sound h

theorem fits_complete (x : BatchSender) (h' : h.Sound) (hsuccess : x.successCounter = h.successes)
    (hall : h.created.length ≤ h.reported.length) (hopen : h.completed = [])
    (hcount : x.completedCounter ≤ x.records.length) (htask : x.checksumUpdateTask = false)
    (hloop : x.loop = none) :
    Fits (if x.canceled || x.system then none
        else some { x with pipeline := p, reporting := true })
      { h with completed := h.completed ++ [x.successCounter] } := by
  have hcompleted : h.completed ++ [x.successCounter] = [h.successes] := by
    rw [hopen, hsuccess, List.nil_append]
  cases x.canceled || x.system with
  | true => exact ⟨hcompleted, h'.all_reported hall⟩
  | false =>
      refine ⟨hsuccess, ?_⟩
      change SenderStage _ _ _ p x.completedCounter x.checksumUpdateTask x.loop true
      rw [htask, hloop]
      exact .reporting p _ hcount hall (by rw [hopen, List.nil_append])

theorem fits_dispatch (x : BatchSender) (hsuccess : x.successCounter = h.successes)
    (hcreated : h.created = []) (hreported : h.reported = []) (hcompleted : h.completed = [])
    (hcount : x.completedCounter = 0) (htask : x.checksumUpdateTask = false)
    (hreporting : x.reporting = false) :
    Fits (some { x with
      pipeline := ⟨3, 1, true, false, false⟩, loop := some ⟨x.records, 0⟩ }) h := by
  refine ⟨hsuccess, ?_⟩
  change SenderStage _ _ _ ⟨3, 1, true, false, false⟩ x.completedCounter x.checksumUpdateTask
    (some ⟨x.records, 0⟩) x.reporting
  have hzero : x.completedCounter = h.reported.length := by
    rw [hcount, hreported]
    rfl
  rw [hzero, htask, hreporting]
  refine .dispatching false ⟨x.records, 0⟩ ?_ ?_ hcompleted
  · simp [hreported]
  · simp [hcreated]

theorem senderSubmit_put (s : Batch) (n : ℕ) (x : BatchSender) (h' : h.Sound)
    (hempty : h = ⟨[], [], []⟩) (hsuccess : x.successCounter = 0) (hcount : x.completedCounter = 0)
    (htask : x.checksumUpdateTask = false) (hloop : x.loop = none)
    (hreporting : x.reporting = false)
    (worker : Bool) : ∃ o hist, (s.put n (some x) h).senderSubmit n worker = s.put n o hist ∧
      hist.created = h.created ∧ hist.reported = h.reported ∧ Fits o hist := by
  have hsuccesses : x.successCounter = h.successes := by
    rw [hsuccess, hempty]
    rfl
  unfold senderSubmit updateChecksum
  simp only [modifySender_put, senders_put]
  split
  · refine ⟨_, h, ?_, rfl, rfl, fits_dispatch x hsuccesses (by rw [hempty]) (by rw [hempty])
      (by rw [hempty]) hcount htask hreporting⟩
    simp [senderNext, senderReturned, Pipeline.init, Pipeline.advance, Pipeline.last,
      Pipeline.returned]
  · cases worker with
    | true =>
        refine ⟨some { x with pipeline := ⟨3, 0, false, false, false⟩, checksumUpdateTask := true },
          h, ?_, rfl, rfl, hsuccesses, ?_⟩
        · simp [senderReturned, Pipeline.init, Pipeline.returned]
        · change SenderStage _ _ _ ⟨3, 0, false, false, false⟩ x.completedCounter true x.loop
            x.reporting
          rw [hcount, hloop, hreporting]
          exact .checksum (by rw [hempty]) (by rw [hempty]) (by rw [hempty])
    | false =>
        refine ⟨_, _, ?_, ?_, ?_, fits_complete (p := ⟨3, 2, true, false, false⟩)
          { x with failed := true } h' hsuccesses (by simp [hempty]) (by rw [hempty])
          (by simp [hcount]) htask hloop⟩
        · simp [senderFinish, senderReturned, Pipeline.init, Pipeline.conclude, Pipeline.last,
            Pipeline.returned]
        · rfl
        · rfl

/-- The worker of a sender is done: the loop begins, or the sender completes. -/
theorem updateChecksumComplete_put (s : Batch) (n : ℕ) (x : BatchSender) (h' : h.Sound)
    (hx : x.Sound h) (htask : x.checksumUpdateTask = true) (canceled computed : Bool) :
    ∃ o hist, (s.put n (some x) h).updateChecksumComplete n canceled computed = s.put n o hist ∧
      hist.created = h.created ∧ hist.reported = h.reported ∧ Fits o hist := by
  obtain ⟨hsuccess, hstage⟩ := hx
  obtain ⟨pipeline, parcel, chunks, records, dispatchers, completedCounter, successCounter,
    canceled', failed, system, checksumUpdateTask, loop, reporting⟩ := x
  dsimp only at hsuccess hstage htask
  subst htask
  cases hstage with
  | checksum hcreated hreported hcompleted =>
      unfold updateChecksumComplete
      simp only [modifySender_put, senders_put]
      split
      · refine ⟨_, _, ?_, ?_, ?_, fits_complete (p := ⟨3, 2, true, false, false⟩)
          ⟨⟨3, 0, false, false, false⟩, parcel, chunks, records, dispatchers, 0, successCounter,
            canceled' || canceled, failed || !computed, system, false, none, false⟩ h' hsuccess
          (by simp [hcreated]) hcompleted (Nat.zero_le _) rfl rfl⟩
        · simp [senderFinish, Pipeline.conclude, Pipeline.last]
        · rfl
        · rfl
      · refine ⟨_, h, ?_, rfl, rfl, fits_dispatch
          ⟨⟨3, 0, false, false, false⟩, parcel, chunks, records, dispatchers, 0, successCounter,
            canceled' || canceled, failed || !computed, system, false, none, false⟩ hsuccess
          hcreated hreported hcompleted rfl rfl rfl⟩
        simp [senderNext, Pipeline.advance, Pipeline.last]

/-- Behind the loop the sender waits for the results that are missing, if there are any. -/
theorem dispatched_put (s : Batch) (n : ℕ) (x : BatchSender) (h' : h.Sound) (hx : x.Sound h)
    (hrecords : x.records ≠ []) : ∃ o hist, (s.put n (some x) h).dispatched n = s.put n o hist ∧
      hist.created = h.created ∧ hist.reported = h.reported ∧ Fits o hist := by
  have hle := h'.length_le
  by_cases hloop : ∃ failedCounter, x.loop = some ⟨[], failedCounter⟩
  · obtain ⟨failedCounter, hloop⟩ := hloop
    obtain ⟨hsuccess, hstage⟩ := hx
    obtain ⟨pipeline, parcel, chunks, records, dispatchers, completedCounter, successCounter,
      canceled, failed, system, checksumUpdateTask, loop, reporting⟩ := x
    dsimp only at hsuccess hstage hrecords hloop
    subst hloop
    have hpos := List.length_pos_iff.mpr hrecords
    cases hstage with
    | dispatching next loop hlast hcount hcompleted =>
      simp only [List.length_nil, Nat.add_zero] at hcount
      unfold dispatched
      simp only [senders_put, modifySender_put]
      have hcompletes : h.reported.length + failedCounter = records.length → ∃ o hist,
          ((s.put n (some ⟨⟨3, 1, true, true, false⟩, parcel, chunks, records, dispatchers,
            h.reported.length + failedCounter, successCounter, canceled, failed, system, false,
            none, false⟩) h).senderReturned n) = s.put n o hist ∧
          hist.created = h.created ∧ hist.reported = h.reported ∧ Fits o hist := by
        intro hfull
        refine ⟨_, _, ?_, ?_, ?_, fits_complete (p := ⟨3, 2, true, false, false⟩)
          ⟨⟨3, 1, true, true, false⟩, parcel, chunks, records, dispatchers,
            h.reported.length + failedCounter, successCounter, canceled, failed, system, false,
            none, false⟩ h' hsuccess (by omega) hcompleted (Nat.le_of_eq hfull) rfl rfl⟩
        · simp [senderReturned, Pipeline.returned, Pipeline.last]
        · rfl
        · rfl
      by_cases hfull : h.reported.length + failedCounter = records.length
      · by_cases hfailed : 0 < failedCounter
        · rw [if_pos ⟨hfailed, hfull⟩]
          obtain ⟨o, hist, heq, hrest⟩ := hcompletes hfull
          refine ⟨o, hist, ?_, hrest⟩
          rw [← heq]
          simp [senderNext, Pipeline.advance, Pipeline.last]
        · rw [if_neg fun hboth => hfailed hboth.1]
          have hreported : h.reported.length = records.length := by omega
          obtain rfl : next = true := hlast.mpr ⟨hreported, List.length_pos_iff.mp (by omega)⟩
          exact hcompletes hfull
      · rw [if_neg fun hboth => hfull hboth.2]
        have hnext : next = false := by
          cases next with
          | false => rfl
          | true =>
              have hreported := (hlast.mp rfl).1
              exact absurd (by omega) hfull
        subst hnext
        refine ⟨some ⟨⟨3, 1, false, false, false⟩, parcel, chunks, records, dispatchers,
          h.reported.length + failedCounter, successCounter, canceled, failed, system, false,
          none, false⟩, h, ?_, rfl, rfl, hsuccess, .waiting _ ?_ ?_ hcompleted⟩
        · simp [senderReturned, Pipeline.returned]
        · change h.reported.length + failedCounter + h.created.length =
            h.reported.length + records.length
          omega
        · change h.reported.length + failedCounter < records.length
          omega
  · have hidle : (s.put n (some x) h).dispatched n = s.put n (some x) h := by
      unfold dispatched
      simp only [senders_put]
      split
      · rfl
      · rfl
      · rename_i failedCounter heq
        exact absurd ⟨failedCounter, heq⟩ hloop
    exact ⟨some x, h, hidle, rfl, rfl, hx⟩

/-- A sender counts the result of a dispatcher that has not reported, and completes with the
last one, at once unless its loop still runs. -/
theorem onDispatcherResult_put (s : Batch) (n : ℕ) (x : BatchSender) (h' : h.Sound)
    (hx : x.Sound h) (hd : d ∈ h.created) (hnew : d ∉ h.reported.map Prod.fst) (success : Bool) :
    ∃ o hist, (s.put n (some x) h).onDispatcherResult n d success = s.put n o hist ∧
      hist.created = h.created ∧ hist.reported = h.reported ++ [(d, success)] ∧ hist.Sound ∧
      Fits o hist ∧ (¬ (x.pipeline.busy = false ∧ x.completedCounter + 1 = x.records.length) →
        ∃ x', o = some x' ∧ x'.reporting = false) := by
  have hless : h.reported.length < h.created.length := by
    by_contra hall
    exact hnew (h'.all_reported (Nat.not_lt.mp hall) d hd)
  have hsound : BatchHistory.Sound { h with reported := h.reported ++ [(d, success)] } :=
    h'.report hd hnew
  obtain ⟨hsuccess, hstage⟩ := hx
  have hsuccesses : x.successCounter + success.toNat =
      BatchHistory.successes { h with reported := h.reported ++ [(d, success)] } := by
    rw [BatchHistory.successes_report, hsuccess]
  obtain ⟨pipeline, parcel, chunks, records, dispatchers, completedCounter, successCounter,
    canceled, failed, system, checksumUpdateTask, loop, reporting⟩ := x
  dsimp only at hsuccess hstage hsuccesses
  unfold onDispatcherResult
  simp only [senders_put, note_put, modifySender_put]
  cases hstage with
  | checksum hcreated => rw [hcreated] at hd; cases hd
  | reporting _ _ _ hall => exact absurd hall (Nat.not_le.mpr hless)
  | dispatching next loop hlast hcount hcompleted =>
      have hnext : next = false := by
        cases next with
        | false => rfl
        | true =>
            have hreported := (hlast.mp rfl).1
            omega
      subst hnext
      have hlength : (h.reported ++ [(d, success)]).length = h.reported.length + 1 := by simp
      split
      · rename_i hfull
        refine ⟨some ⟨⟨3, 1, true, true, false⟩, parcel, chunks, records, dispatchers,
          h.reported.length + 1, successCounter + success.toNat, canceled, failed, system, false,
          some loop, false⟩, { h with reported := h.reported ++ [(d, success)] }, ?_, rfl, rfl,
          hsound, ⟨hsuccesses, ?_⟩, fun _ => ⟨_, rfl, rfl⟩⟩
        · simp [senderNext, Pipeline.advance, Pipeline.last]
        · have hdispatching := @SenderStage.dispatching records.length
            (successCounter + success.toNat)
            { h with reported := h.reported ++ [(d, success)] } true loop
            (by simpa using hfull) hcount hcompleted
          rwa [hlength] at hdispatching
      · rename_i hfull
        refine ⟨_, _, rfl, rfl, rfl, hsound, ⟨hsuccesses, ?_⟩, fun _ => ⟨_, rfl, rfl⟩⟩
        have hdispatching := @SenderStage.dispatching records.length
          (successCounter + success.toNat)
          { h with reported := h.reported ++ [(d, success)] } false loop
          (by simpa using hfull) hcount hcompleted
        rwa [hlength] at hdispatching
  | waiting _ hcount hopen hcompleted =>
      split
      · rename_i hfull
        refine ⟨_, _, ?_, ?_, ?_, ?_, fits_complete (p := ⟨3, 2, true, false, false⟩)
          ⟨⟨3, 1, false, false, false⟩, parcel, chunks, records, dispatchers, completedCounter + 1,
            successCounter + success.toNat, canceled, failed, system, false, none, false⟩ hsound
          hsuccesses ?_ hcompleted (Nat.le_of_eq hfull) rfl rfl,
        fun hnot => absurd ⟨rfl, hfull⟩ hnot⟩
        · simp [senderNext, Pipeline.advance, Pipeline.last]
        · rfl
        · rfl
        · exact ⟨hsound.created, hsound.reported, hsound.subset⟩
        · simp only [List.length_append, List.length_singleton]
          omega
      · rename_i hfull
        refine ⟨_, _, rfl, rfl, rfl, hsound, ⟨hsuccesses, .waiting _ ?_ ?_ hcompleted⟩,
          fun _ => ⟨_, rfl, rfl⟩⟩
        · simp only [List.length_append, List.length_singleton]
          omega
        · change completedCounter + 1 < records.length
          omega

end Fits

/-- A dispatcher that reports takes its entry from the list of its sender first. -/
def DispatcherSound (h : BatchHistory) (d : ℕ) (y : BatchDispatcher) : Prop :=
  d ∈ h.created ∧
    (y.completing = none ∧ y.senderEntry = true ∧ d ∉ h.reported.map Prod.fst ∨
      y.completing = some false ∧ y.senderEntry = false ∧ d ∈ h.reported.map Prod.fst)

/-- The senders and dispatchers are as their history says. -/
structure Tallied (s : Batch) : Prop where
  history : ∀ n, (s.history n).Sound
  fresh : ∀ n, s.nextSender ≤ n → s.senders n = none ∧ s.history n = ⟨[], [], []⟩
  sender : ∀ n x, s.senders n = some x → x.Sound (s.history n)
  settled : ∀ n, n < s.nextSender → s.senders n = none → (s.history n).Settled
  created : ∀ n, ∀ d ∈ (s.history n).created, d < s.nextDispatcher
  dispatcher : ∀ d y, s.dispatchers d = some y → DispatcherSound (s.history y.sender) d y
  unreported : ∀ n, ∀ d ∈ (s.history n).created, d ∉ (s.history n).reported.map Prod.fst →
    ∃ y, s.dispatchers d = some y ∧ y.sender = n
  fault : s.fault = none

theorem tallied_start : Tallied start where
  history _ := ⟨List.nodup_nil, List.nodup_nil, List.nil_subset _⟩
  fresh _ _ := ⟨rfl, rfl⟩
  sender _ _ heq := nomatch heq
  settled n hn := absurd hn (Nat.not_lt_zero n)
  created _ _ hd := nomatch hd
  dispatcher _ _ heq := nomatch heq
  unreported _ _ hd := nomatch hd
  fault := rfl

section Same

/-- What the history says of a dispatcher. -/
def core (y : BatchDispatcher) : ℕ × Bool × Option Bool := (y.sender, y.senderEntry, y.completing)

/-- Only what the history does not speak of may differ. -/
structure SameTally (s s' : Batch) : Prop where
  senders : s'.senders = s.senders
  history : s'.history = s.history
  nextSender : s'.nextSender = s.nextSender
  nextDispatcher : s'.nextDispatcher = s.nextDispatcher
  fault : s'.fault = s.fault
  dispatchers : ∀ d, (s'.dispatchers d).map core = (s.dispatchers d).map core

theorem SameTally.refl (s : Batch) : SameTally s s := ⟨rfl, rfl, rfl, rfl, rfl, fun _ => rfl⟩

theorem SameTally.trans {s s' s'' : Batch} (h : SameTally s s') (h' : SameTally s' s'') :
    SameTally s s'' where
  senders := h'.senders.trans h.senders
  history := h'.history.trans h.history
  nextSender := h'.nextSender.trans h.nextSender
  nextDispatcher := h'.nextDispatcher.trans h.nextDispatcher
  fault := h'.fault.trans h.fault
  dispatchers d := (h'.dispatchers d).trans (h.dispatchers d)

theorem sameTally_modifyBus (s : Batch) (b : ℕ) (f : BatchBus → BatchBus) :
    SameTally s (s.modifyBus b f) := ⟨rfl, rfl, rfl, rfl, rfl, fun _ => rfl⟩

theorem sameTally_queued (s : Batch) (q : ℕ → Bool) : SameTally s { s with queued := q } :=
  ⟨rfl, rfl, rfl, rfl, rfl, fun _ => rfl⟩

theorem sameTally_modifyDispatcher (s : Batch) (d : ℕ) {f : BatchDispatcher → BatchDispatcher}
    (hf : ∀ y, core (f y) = core y) : SameTally s (s.modifyDispatcher d f) := by
  refine ⟨rfl, rfl, rfl, rfl, rfl, fun d' => ?_⟩
  change (Function.update s.dispatchers d ((s.dispatchers d).map f) d').map core = _
  by_cases hd : d' = d
  · subst hd
    rw [Function.update_self, Option.map_map]
    exact congrArg (fun g => (s.dispatchers d').map g) (funext hf)
  · rw [Function.update_of_ne hd]

theorem sameTally_dispatcherExecute (s : Batch) (d : ℕ) (p : Pipeline) :
    SameTally s (s.dispatcherExecute d p) :=
  (sameTally_modifyDispatcher s d (f := fun y =>
    { y with pipeline := { p with busy := true }.returned.1 }) fun _ => rfl).trans
      (sameTally_queued _ _)

theorem sameTally_dispatcherNext (s : Batch) (d : ℕ) : SameTally s (s.dispatcherNext d) := by
  unfold dispatcherNext
  split
  · exact .refl s
  · split
    · exact sameTally_dispatcherExecute ..
    · exact .refl s

theorem sameTally_dispatcherFinish (s : Batch) (d : ℕ) : SameTally s (s.dispatcherFinish d) := by
  unfold dispatcherFinish
  split
  · exact .refl s
  · split
    · exact sameTally_dispatcherExecute ..
    · exact .refl s

theorem sameTally_dispatcherFail (s : Batch) (d : ℕ) : SameTally s (s.dispatcherFail d) :=
  (sameTally_modifyDispatcher s d (f := fun y => { y with failed := true }) fun _ => rfl).trans
    (sameTally_dispatcherFinish _ d)

theorem sameTally_dispatcherCancel (s : Batch) (d : ℕ) : SameTally s (s.dispatcherCancel d) := by
  unfold dispatcherCancel
  split
  · exact .refl s
  · split
    · exact .refl s
    · exact (sameTally_modifyDispatcher s d (f := fun y =>
        { y with canceled := true, resendTimer := false }) fun _ => rfl).trans
          (sameTally_dispatcherFinish _ d)

theorem sameTally_processSending (s : Batch) (b : ℕ) : SameTally s (s.processSending b) := by
  unfold processSending
  split
  · exact .refl s
  · exact sameTally_modifyBus ..

theorem sameTally_cancelAll (s : Batch) (l : List ℕ) :
    SameTally s (l.foldl dispatcherCancel s) := by
  induction l generalizing s with
  | nil => exact .refl s
  | cons d l ih => exact (sameTally_dispatcherCancel s d).trans (ih _)

theorem sameTally_stopDispatchers (s : Batch) (b : ℕ) : SameTally s (s.stopDispatchers b) := by
  unfold stopDispatchers
  dsimp only
  refine SameTally.trans ?_ (sameTally_modifyBus ..)
  refine (sameTally_cancelAll s (s.buses b).pendingDispatchers).trans ?_
  split
  · exact .refl _
  · exact sameTally_dispatcherCancel ..

theorem sameTally_stop (s : Batch) (b : ℕ) : SameTally s (s.stop b) := by
  unfold stop
  split
  · exact sameTally_modifyBus ..
  · exact sameTally_stopDispatchers s b

theorem sameTally_submitPending (s : Batch) (b : ℕ) (l : List ℕ) :
    SameTally s (submitPending b l s) := by
  induction l generalizing s with
  | nil => exact sameTally_modifyBus ..
  | cons d l ih =>
      unfold submitPending
      split
      · exact sameTally_modifyBus ..
      · refine SameTally.trans ?_ (ih _)
        refine SameTally.trans ?_ (sameTally_dispatcherExecute ..)
        split
        · exact sameTally_modifyBus ..
        · exact .refl s

theorem sameTally_processSendingDeferred (s : Batch) (b : ℕ) :
    SameTally s (s.processSendingDeferred b) := by
  have hloop : ∀ s : Batch, SameTally s
      (if (s.buses b).stopping then s else submitPending b (s.buses b).pendingDispatchers s) := by
    intro s
    split
    · exact .refl s
    · exact sameTally_submitPending ..
  have hflag : ∀ s : Batch, SameTally s (if (s.buses b).stopping then s.stop b else s) := by
    intro s
    split
    · exact sameTally_stop s b
    · exact .refl s
  unfold processSendingDeferred
  dsimp only
  exact (((sameTally_modifyBus ..).trans (hloop _)).trans (sameTally_modifyBus ..)).trans (hflag _)

theorem sameTally_onDispatcherCompleted (s : Batch) (b d : ℕ) :
    SameTally s (s.onDispatcherCompleted b d) := by
  unfold onDispatcherCompleted
  refine SameTally.trans ?_ (sameTally_processSending ..)
  split
  · exact sameTally_modifyBus ..
  · exact .refl s

theorem sameTally_dispatcherDispatch (s : Batch) (d : ℕ) (sent timer : Bool) :
    SameTally s (s.dispatcherDispatch d sent timer) := by
  unfold dispatcherDispatch
  split
  · exact .refl s
  · split
    · exact sameTally_dispatcherFail s d
    · split
      · exact sameTally_dispatcherNext s d
      · split
        · exact sameTally_modifyDispatcher s d fun _ => rfl
        · exact sameTally_dispatcherFail s d

theorem sameTally_dispatcherResend (s : Batch) (d : ℕ) (sent : Bool) :
    SameTally s (s.dispatcherResend d sent) := by
  unfold dispatcherResend
  split
  · exact .refl s
  · exact sameTally_dispatcherFail s d

theorem sameTally_dispatcherRecvAck (s : Batch) (d index : ℕ) :
    SameTally s (s.dispatcherRecvAck d index) := by
  unfold dispatcherRecvAck
  split
  · exact .refl s
  · split
    · exact .refl s
    · split
      · exact .refl s
      · exact .refl s
      · dsimp only
        refine (sameTally_modifyDispatcher s d (f := fun y => { y with
          fragments := y.fragments.set index true, ackedCounter := y.ackedCounter + 1 })
            fun _ => rfl).trans ?_
        split
        · exact .refl _
        · exact sameTally_dispatcherNext _ d

theorem sameTally_recvFragmentAck (s : Batch) (b : ℕ) (sequence : UInt64) (index : ℕ) :
    SameTally s (s.recvFragmentAck b sequence index) := by
  unfold recvFragmentAck
  split
  · exact .refl s
  · split
    · exact sameTally_dispatcherRecvAck ..
    · exact .refl s

theorem SameTally.exists_core (h : SameTally s s') (hy : s'.dispatchers d = some y) :
    ∃ y', s.dispatchers d = some y' ∧ core y' = core y := by
  have hcore := h.dispatchers d
  rw [hy, Option.map_some] at hcore
  exact Option.map_eq_some_iff.mp hcore.symm

theorem SameTally.exists_core' (h : SameTally s s') (hy : s.dispatchers d = some y) :
    ∃ y', s'.dispatchers d = some y' ∧ core y' = core y := by
  have hcore := h.dispatchers d
  rw [hy, Option.map_some] at hcore
  exact Option.map_eq_some_iff.mp hcore

theorem Tallied.same (h : Tallied s) (hsame : SameTally s s') : Tallied s' where
  history n := by
    rw [hsame.history]
    exact h.history n
  fresh n hn := by
    rw [hsame.senders, hsame.history]
    exact h.fresh n (hsame.nextSender ▸ hn)
  sender n x hx := by
    rw [hsame.history]
    exact h.sender n x (hsame.senders ▸ hx)
  settled n hn hnone := by
    rw [hsame.history]
    exact h.settled n (hsame.nextSender ▸ hn) (hsame.senders ▸ hnone)
  created n d hd := by
    rw [hsame.nextDispatcher]
    exact h.created n d (hsame.history ▸ hd)
  dispatcher d y hy := by
    obtain ⟨y', hy', hcore⟩ := hsame.exists_core hy
    obtain ⟨hsender, hentry, hcompleting⟩ : y'.sender = y.sender ∧ y'.senderEntry = y.senderEntry ∧
        y'.completing = y.completing := by
      simpa [core] using hcore
    have hsound := h.dispatcher d y' hy'
    rw [hsame.history]
    rwa [DispatcherSound, hentry, hcompleting, hsender] at hsound
  unreported n d hd hnew := by
    rw [hsame.history] at hd hnew
    obtain ⟨y, hy, hsender⟩ := h.unreported n d hd hnew
    obtain ⟨y', hy', hcore⟩ := hsame.exists_core' hy
    exact ⟨y', hy', (congrArg Prod.fst hcore).trans hsender⟩
  fault := hsame.fault.trans h.fault

end Same

section Tallies

theorem Tallied.lt_nextSender (h : Tallied s) (hx : s.senders n = some x) : n < s.nextSender := by
  by_contra hn
  have hnone := (h.fresh n (Nat.not_lt.mp hn)).1
  rw [hx] at hnone
  cases hnone

/-- A sender is made or goes on, or is released, and its dispatchers stay. -/
theorem Tallied.putNext (h : Tallied s) {next : ℕ} (hnext : s.nextSender ≤ next) (hn : n < next)
    (hnew : ∀ m, s.nextSender ≤ m → m < next → m = n) (o : Option BatchSender)
    (hist : BatchHistory) (hcreated : hist.created = (s.history n).created)
    (hreported : hist.reported = (s.history n).reported) (hfits : Fits o hist) :
    Tallied { s.put n o hist with nextSender := next } := by
  have hsound : hist.Sound := by
    obtain ⟨hcreated', hreported', hsubset⟩ := h.history n
    exact ⟨hcreated ▸ hcreated', hreported ▸ hreported', by rw [hcreated, hreported]; exact hsubset⟩
  have hhistory : ∀ m, (s.put n o hist).history m = if m = n then hist else s.history m :=
    fun m => Function.update_apply ..
  have hsenders : ∀ m, (s.put n o hist).senders m = if m = n then o else s.senders m :=
    fun m => Function.update_apply ..
  have hboth : ∀ m, ((s.put n o hist).history m).created = (s.history m).created ∧
      ((s.put n o hist).history m).reported = (s.history m).reported := by
    intro m
    rw [hhistory]
    split
    · rename_i hm
      rw [hm]
      exact ⟨hcreated, hreported⟩
    · exact ⟨rfl, rfl⟩
  refine ⟨fun m => ?_, fun m hm => ?_, fun m x hx => ?_, fun m hm hnone => ?_, fun m d hd => ?_,
    fun d y hy => ?_, fun m d hd hnew => ?_, h.fault⟩
  · change ((s.put n o hist).history m).Sound
    rw [hhistory]
    split
    · exact hsound
    · exact h.history m
  · have hm : next ≤ m := hm
    change (s.put n o hist).senders m = none ∧ (s.put n o hist).history m = ⟨[], [], []⟩
    rw [hhistory, hsenders, if_neg (by omega), if_neg (by omega)]
    exact h.fresh m (by omega)
  · change (s.put n o hist).senders m = some x at hx
    change x.Sound ((s.put n o hist).history m)
    rw [hsenders] at hx
    rw [hhistory]
    split at hx
    · rename_i hm
      rw [if_pos hm]
      rw [hx] at hfits
      exact hfits
    · rename_i hm
      rw [if_neg hm]
      exact h.sender m x hx
  · have hm : m < next := hm
    change (s.put n o hist).senders m = none at hnone
    change ((s.put n o hist).history m).Settled
    rw [hsenders] at hnone
    rw [hhistory]
    split at hnone
    · rename_i hm'
      rw [if_pos hm']
      rw [hnone] at hfits
      exact hfits
    · rename_i hm'
      rw [if_neg hm']
      refine h.settled m ?_ hnone
      by_contra hfresh
      exact hm' (hnew m (Nat.not_lt.mp hfresh) hm)
  · change d ∈ ((s.put n o hist).history m).created at hd
    rw [(hboth m).1] at hd
    exact h.created m d hd
  · have hdispatcher := h.dispatcher d y hy
    rwa [DispatcherSound, ← (hboth y.sender).1, ← (hboth y.sender).2] at hdispatcher
  · change d ∈ ((s.put n o hist).history m).created at hd
    change d ∉ ((s.put n o hist).history m).reported.map Prod.fst at hnew
    rw [(hboth m).1] at hd
    rw [(hboth m).2] at hnew
    exact h.unreported m d hd hnew

theorem Tallied.put (h : Tallied s) (hn : n < s.nextSender) (o : Option BatchSender)
    (hist : BatchHistory) (hcreated : hist.created = (s.history n).created)
    (hreported : hist.reported = (s.history n).reported) (hfits : Fits o hist) :
    Tallied (s.put n o hist) :=
  h.putNext (Nat.le_refl _) hn (fun _ hm hm' => absurd hm (Nat.not_le.mpr hm')) o hist hcreated
    hreported hfits

theorem Tallied.goes (h : Tallied s) {f : Batch → Batch} (hx : s.senders n = some x)
    (hf : ∃ o hist, f (s.put n (some x) (s.history n)) = s.put n o hist ∧
      hist.created = (s.history n).created ∧ hist.reported = (s.history n).reported ∧
      Fits o hist) : Tallied (f s) := by
  obtain ⟨o, hist, heq, hcreated, hreported, hfits⟩ := hf
  rw [put_self hx] at heq
  rw [heq]
  exact h.put (h.lt_nextSender hx) o hist hcreated hreported hfits

theorem Tallied.submit (h : Tallied s) (parcel chunks : ℕ) (system : Bool)
    (records : List Transmission) (worker : Bool) :
    Tallied (((s.senderCreate parcel chunks system).addTransmissions s.nextSender
      records).senderSubmit s.nextSender worker) := by
  obtain ⟨-, hempty⟩ := h.fresh s.nextSender (Nat.le_refl _)
  set n := s.nextSender with hn
  have hmade : (s.senderCreate parcel chunks system).addTransmissions n records =
      { s with nextSender := n + 1 }.put n
        (some { BatchSender.init parcel chunks system with records := records })
        (s.history n) := by
    simp [senderCreate, addTransmissions, modifySender, Batch.put, BatchSender.init, ← hn]
  rw [hmade]
  obtain ⟨o, hist, heq, hcreated, hreported, hfits⟩ := senderSubmit_put
    { s with nextSender := n + 1 } n
    { BatchSender.init parcel chunks system with records := records }
    (h.history n) hempty rfl rfl rfl rfl rfl worker
  rw [heq]
  exact h.putNext (Nat.le_succ n) (Nat.lt_succ_self n) (fun m hm hm' => by omega) o hist hcreated
    hreported hfits

theorem Tallied.updateChecksumComplete (h : Tallied s) (hx : s.senders n = some x)
    (htask : x.checksumUpdateTask = true) (canceled computed : Bool) :
    Tallied (s.updateChecksumComplete n canceled computed) :=
  h.goes (f := fun s => s.updateChecksumComplete n canceled computed) hx
    (updateChecksumComplete_put s n x (h.history n) (h.sender n x hx) htask canceled computed)

theorem Tallied.dispatched (h : Tallied s) (hx : s.senders n = some x) (hrecords : x.records ≠ []) :
    Tallied (s.dispatched n) :=
  h.goes (f := fun s => s.dispatched n) hx
    (dispatched_put s n x (h.history n) (h.sender n x hx) hrecords)

theorem Tallied.senderRelease (h : Tallied s) (hx : s.senders n = some x)
    (hreporting : x.reporting = true) : Tallied (s.senderRelease n) := by
  have hreleased : ∀ s : Batch, s.senderRelease n = s.put n none (s.history n) := by
    intro s
    simp [Batch.senderRelease, Batch.put]
  rw [hreleased]
  refine h.put (h.lt_nextSender hx) none _ rfl rfl ?_
  obtain ⟨hall, hcompleted⟩ := (h.sender n x hx).of_reporting hreporting
  exact ⟨hcompleted.trans (by rw [(h.sender n x hx).1]), (h.history n).all_reported hall⟩

/-- A dispatcher is made. -/
theorem Tallied.create (h : Tallied s) (hn : n < s.nextSender) (hy : y.sender = n)
    (hentry : y.senderEntry = true) (hcompleting : y.completing = none)
    (hfits : Fits (some x)
      { s.history n with created := (s.history n).created ++ [s.nextDispatcher] }) :
    Tallied ({ s with
      dispatchers := Function.update s.dispatchers s.nextDispatcher (some y)
      nextDispatcher := s.nextDispatcher + 1 }.put n (some x)
        { s.history n with created := (s.history n).created ++ [s.nextDispatcher] }) := by
  set d := s.nextDispatcher with hd
  set hist : BatchHistory := { s.history n with created := (s.history n).created ++ [d] } with hhist
  have hfresh : ∀ m, d ∉ (s.history m).created := fun m hmem =>
    absurd (h.created m d hmem) (Nat.lt_irrefl _)
  have hunreported : ∀ m, d ∉ (s.history m).reported.map Prod.fst := fun m hmem =>
    hfresh m ((h.history m).subset hmem)
  have hhistory : ∀ m, (Function.update s.history n hist) m = if m = n then hist else s.history m :=
    fun m => Function.update_apply ..
  have hreported : ∀ m, (Function.update s.history n hist m).reported = (s.history m).reported := by
    intro m
    rw [hhistory]
    split
    · rename_i hm
      rw [hm]
    · rfl
  have hcreated : ∀ {m d'}, d' ∈ (Function.update s.history n hist m).created →
      d' ∈ (s.history m).created ∨ d' = d ∧ m = n := by
    intro m d' hmem
    rw [hhistory] at hmem
    split at hmem
    · rename_i hm
      rcases List.mem_append.mp hmem with hmem | hmem
      · exact .inl (hm ▸ hmem)
      · exact .inr ⟨List.mem_singleton.mp hmem, hm⟩
    · exact .inl hmem
  have hkept : ∀ {m d'}, d' ∈ (s.history m).created →
      d' ∈ (Function.update s.history n hist m).created := by
    intro m d' hmem
    rw [hhistory]
    split
    · rename_i hm
      exact List.mem_append_left _ (hm ▸ hmem)
    · exact hmem
  refine ⟨fun m => ?_, fun m hm => ?_, fun m x' hx' => ?_, fun m hm hnone => ?_, fun m d' hd' => ?_,
    fun d' y' hy' => ?_, fun m d' hd' hnew => ?_, h.fault⟩
  · change (Function.update s.history n hist m).Sound
    rw [hhistory]
    split
    · exact (h.history n).create (hfresh n)
    · exact h.history m
  · have hm : s.nextSender ≤ m := hm
    change Function.update s.senders n (some x) m = none ∧
      Function.update s.history n hist m = ⟨[], [], []⟩
    rw [Function.update_of_ne (by omega), Function.update_of_ne (by omega)]
    exact h.fresh m hm
  · change Function.update s.senders n (some x) m = some x' at hx'
    change x'.Sound (Function.update s.history n hist m)
    rw [Function.update_apply] at hx'
    rw [hhistory]
    split at hx'
    · rename_i hm
      rw [if_pos hm, ← Option.some.inj hx']
      exact hfits
    · rename_i hm
      rw [if_neg hm]
      exact h.sender m x' hx'
  · change Function.update s.senders n (some x) m = none at hnone
    change (Function.update s.history n hist m).Settled
    rw [Function.update_apply] at hnone
    rw [hhistory]
    split at hnone
    · cases hnone
    · rename_i hm'
      rw [if_neg hm']
      exact h.settled m hm hnone
  · change d' < d + 1
    rcases hcreated hd' with hmem | ⟨rfl, -⟩
    · exact Nat.lt_succ_of_lt (h.created m d' hmem)
    · exact Nat.lt_succ_self _
  · change Function.update s.dispatchers d (some y) d' = some y' at hy'
    change DispatcherSound (Function.update s.history n hist y'.sender) d' y'
    rw [DispatcherSound, hreported]
    by_cases hd' : d' = d
    · rw [hd', Function.update_self] at hy'
      rw [← Option.some.inj hy', hd', hy]
      refine ⟨?_, .inl ⟨hcompleting, hentry, hunreported n⟩⟩
      rw [Function.update_self]
      exact List.mem_append_right _ (List.mem_singleton_self d)
    · rw [Function.update_of_ne hd'] at hy'
      obtain ⟨hmem, hrest⟩ := h.dispatcher d' y' hy'
      exact ⟨hkept hmem, hrest⟩
  · change d' ∉ (Function.update s.history n hist m).reported.map Prod.fst at hnew
    rw [hreported] at hnew
    change ∃ y', Function.update s.dispatchers d (some y) d' = some y' ∧ y'.sender = m
    rcases hcreated hd' with hmem | ⟨rfl, rfl⟩
    · have hne : d' ≠ d := by
        rintro rfl
        exact hfresh m hmem
      rw [Function.update_of_ne hne]
      exact h.unreported m d' hmem hnew
    · exact ⟨y, Function.update_self .., hy⟩

/-- A dispatcher reports, and is released or waits for the return of its sender. -/
theorem Tallied.report (h : Tallied s) (hy : s.dispatchers d = some y)
    (hcompleting : y.completing = none) {o : Option BatchSender} {hist : BatchHistory}
    {success : Bool} (hcreated : hist.created = (s.history y.sender).created)
    (hreported : hist.reported = (s.history y.sender).reported ++ [(d, success)])
    (hsound : hist.Sound) (hfits : Fits o hist) (od : Option BatchDispatcher)
    (hod : ∀ y', od = some y' → y'.sender = y.sender ∧ y'.completing = some false ∧
      y'.senderEntry = false) :
    Tallied { s.put y.sender o hist with dispatchers := Function.update s.dispatchers d od } := by
  set n := y.sender with hn
  obtain ⟨hmem, hrest⟩ := h.dispatcher d y hy
  have hnew : d ∉ (s.history n).reported.map Prod.fst := by
    rcases hrest with ⟨-, -, hnew⟩ | ⟨hdone, -⟩
    · exact hnew
    · rw [hcompleting] at hdone
      cases hdone
  have hlt : n < s.nextSender := by
    by_contra hfresh
    rw [(h.fresh n (Nat.not_lt.mp hfresh)).2] at hmem
    cases hmem
  have hhistory : ∀ m, (Function.update s.history n hist) m = if m = n then hist else s.history m :=
    fun m => Function.update_apply ..
  have hcreated' : ∀ m, (Function.update s.history n hist m).created = (s.history m).created := by
    intro m
    rw [hhistory]
    split
    · rename_i hm
      rw [hm, hcreated]
    · rfl
  have hdone : d ∈ hist.reported.map Prod.fst := by
    rw [hreported, List.map_append]
    exact List.mem_append_right _ (List.mem_singleton_self d)
  have hothers : ∀ {m d'}, d' ≠ d ∨ m ≠ n →
      (d' ∈ (Function.update s.history n hist m).reported.map Prod.fst ↔
        d' ∈ (s.history m).reported.map Prod.fst) := by
    intro m d' hne
    rw [hhistory]
    split
    · rename_i hm
      have hne := hne.resolve_right (not_not.mpr hm)
      rw [hreported, List.map_append, List.mem_append, hm]
      refine ⟨fun hor => hor.resolve_right fun hself => hne (List.mem_singleton.mp hself), .inl⟩
    · exact Iff.rfl
  refine ⟨fun m => ?_, fun m hm => ?_, fun m x' hx' => ?_, fun m hm hnone => ?_, fun m d' hd' => ?_,
    fun d' y' hy' => ?_, fun m d' hd' hnew' => ?_, h.fault⟩
  · change (Function.update s.history n hist m).Sound
    rw [hhistory]
    split
    · exact hsound
    · exact h.history m
  · have hm : s.nextSender ≤ m := hm
    change Function.update s.senders n o m = none ∧
      Function.update s.history n hist m = ⟨[], [], []⟩
    rw [Function.update_of_ne (by omega), Function.update_of_ne (by omega)]
    exact h.fresh m hm
  · change Function.update s.senders n o m = some x' at hx'
    change x'.Sound (Function.update s.history n hist m)
    rw [Function.update_apply] at hx'
    rw [hhistory]
    split at hx'
    · rename_i hm
      rw [if_pos hm]
      rw [hx'] at hfits
      exact hfits
    · rename_i hm
      rw [if_neg hm]
      exact h.sender m x' hx'
  · change Function.update s.senders n o m = none at hnone
    change (Function.update s.history n hist m).Settled
    rw [Function.update_apply] at hnone
    rw [hhistory]
    split at hnone
    · rename_i hm'
      rw [if_pos hm']
      rw [hnone] at hfits
      exact hfits
    · rename_i hm'
      rw [if_neg hm']
      exact h.settled m hm hnone
  · change d' ∈ (Function.update s.history n hist m).created at hd'
    rw [hcreated'] at hd'
    exact h.created m d' hd'
  · change Function.update s.dispatchers d od d' = some y' at hy'
    change DispatcherSound (Function.update s.history n hist y'.sender) d' y'
    rw [DispatcherSound, hcreated']
    by_cases hd' : d' = d
    · rw [hd', Function.update_self] at hy'
      obtain ⟨hsender, hcompleting', hentry⟩ := hod y' hy'
      rw [hd', hsender, Function.update_self]
      exact ⟨hmem, .inr ⟨hcompleting', hentry, hdone⟩⟩
    · rw [Function.update_of_ne hd'] at hy'
      obtain ⟨hmem', hrest'⟩ := h.dispatcher d' y' hy'
      rw [hothers (.inl hd')]
      exact ⟨hmem', hrest'⟩
  · change d' ∈ (Function.update s.history n hist m).created at hd'
    change d' ∉ (Function.update s.history n hist m).reported.map Prod.fst at hnew'
    change ∃ y', Function.update s.dispatchers d od d' = some y' ∧ y'.sender = m
    rw [hcreated'] at hd'
    have hboth : d' ≠ d ∨ m ≠ n := by
      by_contra hboth
      obtain ⟨rfl, rfl⟩ : d' = d ∧ m = n := by
        simpa only [not_or, not_not, ne_eq] using hboth
      rw [Function.update_self] at hnew'
      exact hnew' hdone
    rw [hothers hboth] at hnew'
    obtain ⟨y', hy', hsender⟩ := h.unreported m d' hd' hnew'
    have hne : d' ≠ d := by
      rintro rfl
      obtain rfl : y = y' := Option.some.inj (hy.symm.trans hy')
      exact (hboth.resolve_left (not_not.mpr rfl)) hsender.symm
    exact ⟨y', by rw [Function.update_of_ne hne]; exact hy', hsender⟩

theorem Tallied.release (h : Tallied s) (hy : s.dispatchers d = some y)
    (hcompleting : y.completing = some false) :
    Tallied { s with dispatchers := Function.update s.dispatchers d none } := by
  obtain ⟨-, hrest⟩ := h.dispatcher d y hy
  have hdone : d ∈ (s.history y.sender).reported.map Prod.fst := by
    rcases hrest with ⟨hnone, -⟩ | ⟨-, -, hdone⟩
    · rw [hcompleting] at hnone
      cases hnone
    · exact hdone
  refine ⟨h.history, h.fresh, h.sender, h.settled, h.created, fun d' y' hy' => ?_,
    fun m d' hd' hnew => ?_, h.fault⟩
  · change Function.update s.dispatchers d none d' = some y' at hy'
    rw [Function.update_apply] at hy'
    split at hy'
    · cases hy'
    · exact h.dispatcher d' y' hy'
  · obtain ⟨y', hy', hsender⟩ := h.unreported m d' hd' hnew
    have hne : d' ≠ d := by
      rintro rfl
      obtain rfl : y = y' := Option.some.inj (hy.symm.trans hy')
      rw [hsender] at hdone
      exact hnew hdone
    exact ⟨y', (Function.update_of_ne hne ..).trans hy', hsender⟩

end Tallies

end Batch

end Delivery

end PomeloUdp
