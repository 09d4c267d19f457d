import PomeloUdp.Library.Run
import PomeloUdp.Utils.Sampling

/-!
# Round trip times

The calculator numbers its pings and keeps the time at which the last of them were sent. A
reply gives a round trip, which goes into a sample set of ten; mean and variance are computed
after each of them and kept.

Ten round trips of a minute have a sum of squares far above `2 ^ 64`. `averaged_iff` says when
the running sums are right, and then mean and variance are.
-/

namespace PomeloUdp

namespace Utils

open Machine SlidingWindow

/-- `POMELO_RTT_SAMPLE_SET_SIZE`. -/
def rttSampleSetSize : ℕ := 10

/-- `POMELO_RTT_ENTRY_BUFFER_SIZE`. -/
def rttEntryBufferSize : ℕ := 20

/-- `POMELO_RTT_MAX_SEQUENCE`. -/
def rttMaxSequence : UInt64 := 0xFFFF

/-- `pomelo_rtt_entry_t`. -/
structure RttEntry where
  time : UInt64
  valid : Bool
  sequence : UInt64
  deriving DecidableEq

/-- `pomelo_rtt_calculator_t`. -/
structure RttCalculator where
  mean : UInt64
  variance : UInt64
  entrySequence : UInt64
  entries : Vector RttEntry rttEntryBufferSize
  sample : SampleSet UInt64 rttSampleSetSize
  deriving DecidableEq

namespace RttCalculator

/-- The slot of a sequence number. -/
def slot (sequence : UInt64) : Fin rttEntryBufferSize :=
  ⟨sequence.toNat % rttEntryBufferSize, Nat.mod_lt _ (by decide)⟩

/-- `pomelo_rtt_calculator_init`. -/
def init : RttCalculator where
  mean := 0
  variance := 0
  entrySequence := 0
  entries := Vector.replicate _ ⟨0, false, 0⟩
  sample := SampleSet.init u64 (by decide) (Vector.replicate _ 0)

/-- `pomelo_rtt_calculator_next_entry`. -/
def nextEntry (r : RttCalculator) (time : UInt64) : RttCalculator :=
  let sequence := r.entrySequence
  let entrySequence := r.entrySequence + 1
  { r with
    entrySequence := if rttMaxSequence < entrySequence then 0 else entrySequence
    entries := r.entries.set (slot sequence) ⟨time, true, sequence⟩ }

/-- `pomelo_rtt_calculator_entry`: the slot of the entry that is found. -/
def entry (r : RttCalculator) (sequence : UInt64) : Option (Fin rttEntryBufferSize) :=
  let e := r.entries.get (slot sequence)
  if !e.valid || e.sequence ≠ sequence then none else some (slot sequence)

/-- The round trip that `pomelo_rtt_calculator_submit_entry` submits, unless it discards it. -/
def roundTrip (r : RttCalculator) (i : Fin rttEntryBufferSize) (recvTime replyDeltaTime : UInt64) :
    Option UInt64 :=
  let value := recvTime - (r.entries.get i).time
  if value < replyDeltaTime then none else some (value - replyDeltaTime)

/-- `pomelo_rtt_calculator_submit_entry`. -/
def submitEntry (r : RttCalculator) (i : Fin rttEntryBufferSize)
    (recvTime replyDeltaTime : UInt64) : RttCalculator :=
  let entries := r.entries.set i { r.entries.get i with valid := false } i.isLt
  match r.roundTrip i recvTime replyDeltaTime with
  | none => { r with entries := entries }
  | some value =>
      let sample := r.sample.submitU64 value
      { r with
        entries := entries
        sample := sample
        mean := sample.calcU64.1
        variance := sample.calcU64.2 }

end RttCalculator

/-- The calls of a calculator. -/
inductive RttEvent where
  | nextEntry (time : UInt64)
  | submitEntry (i : Fin rttEntryBufferSize) (recvTime replyDeltaTime : UInt64)

namespace RttCalculator

/-- One call. -/
def step (r : RttCalculator) : RttEvent → RttCalculator
  | .nextEntry time => r.nextEntry time
  | .submitEntry i recvTime replyDeltaTime => r.submitEntry i recvTime replyDeltaTime

/-- The round trips that a call submits. -/
def submitted (r : RttCalculator) : RttEvent → List UInt64
  | .nextEntry _ => []
  | .submitEntry i recvTime replyDeltaTime => (r.roundTrip i recvTime replyDeltaTime).toList

/-- The round trips that are submitted along some calls. -/
def roundTrips (r : RttCalculator) : List RttEvent → List UInt64
  | [] => []
  | e :: es => r.submitted e ++ (r.step e).roundTrips es

/-- The calculator after some round trips. -/
def Follows (r : RttCalculator) : List UInt64 → Prop
  | [] => r.sample.initialized = false
  | first :: rest =>
      SampleSet.Tracks u64 r.sample (window rttSampleSetSize first rest) ∧
        r.mean = r.sample.calcU64.1 ∧ r.variance = r.sample.calcU64.2

variable {r : RttCalculator} {values : List UInt64}

theorem follows_init : Follows init [] := rfl

theorem Follows.submit (h : Follows r values) (value : UInt64) :
    SampleSet.Tracks u64 (r.sample.submitU64 value)
      (window rttSampleSetSize ((values ++ [value]).head (by simp)) (values ++ [value]).tail) := by
  cases values with
  | nil => exact SampleSet.tracks_first h value
  | cons first rest =>
      have htracks := h.1.submit value
      rw [window, ← List.foldl_concat push] at htracks
      exact htracks

theorem Follows.step (h : Follows r values) (e : RttEvent) :
    Follows (r.step e) (values ++ r.submitted e) := by
  cases e with
  | nextEntry time =>
      rw [submitted, List.append_nil]
      cases values with
      | nil => exact h
      | cons first rest => exact h
  | submitEntry i recvTime replyDeltaTime =>
      rw [submitted, RttCalculator.step, submitEntry]
      cases hvalue : r.roundTrip i recvTime replyDeltaTime with
      | none =>
          rw [Option.toList_none, List.append_nil]
          cases values with
          | nil => exact h
          | cons first rest => exact h
      | some value =>
          have htracks := h.submit value
          rw [Option.toList_some]
          cases values with
          | nil => exact ⟨htracks, rfl, rfl⟩
          | cons first rest => exact ⟨htracks, rfl, rfl⟩

theorem Follows.run (h : Follows r values) (es : List RttEvent) :
    Follows (Machine.run RttCalculator.step r es) (values ++ r.roundTrips es) := by
  induction es generalizing r values with
  | nil =>
      rw [roundTrips, List.append_nil]
      exact h
  | cons e es ih =>
      have hrun := ih (h.step e)
      rwa [List.append_assoc] at hrun

/-- What is stored are the statistics of these round trips, and the running sums are theirs. -/
def Averaged (r : RttCalculator) (w : List ℤ) : Prop :=
  Statistics w r.mean.toNat r.variance.toNat ∧ (r.sample.sum.toNat : ℤ) = w.sum ∧
    (r.sample.sumSquared.toNat : ℤ) = (w.map (· ^ 2)).sum

theorem averaged_of_tracks {w : List UInt64} (h : SampleSet.Tracks u64 r.sample w)
    (hlength : w.length = rttSampleSetSize) (hmean : r.mean = r.sample.calcU64.1)
    (hvariance : r.variance = r.sample.calcU64.2) (hsum : (w.map u64.toInt).sum < 2 ^ 64)
    (hsquares : ((w.map u64.toInt).map (· ^ 2)).sum < 2 ^ 64) :
    Averaged r (w.map u64.toInt) := by
  have hw : w.map u64.toInt ≠ [] := by
    intro hnil
    rw [List.map_eq_nil_iff.mp hnil] at hlength
    cases hlength
  have hnonneg : 0 ≤ (w.map u64.toInt).sum :=
    List.sum_nonneg (by simp only [List.mem_map]; rintro _ ⟨x, -, rfl⟩; exact Int.natCast_nonneg _)
  have hsquares_nonneg := squares_nonneg (w.map u64.toInt)
  have hsq := sq_mean_le hw hnonneg
  have hcalc := h.calcSample (by decide)
  have hmap : (w.map fun x => u64.toInt x ^ 2).sum = ((w.map u64.toInt).map (· ^ 2)).sum := by
    rw [List.map_map]
    rfl
  change r.sample.calcU64 = _ at hcalc
  have htracked := h.sumSquared
  rw [hmap] at hcalc htracked
  rw [List.length_map, hlength] at hsq
  rw [Int.emod_eq_of_lt hnonneg hsum, Int.emod_eq_of_lt hsquares_nonneg hsquares] at hcalc
  have hle := Int.ediv_le_self (rttSampleSetSize : ℤ) hnonneg
  have hle' := Int.ediv_le_self (rttSampleSetSize : ℤ) hsquares_nonneg
  have hmean_nonneg := Int.ediv_nonneg hnonneg (Int.natCast_nonneg rttSampleSetSize)
  have hsq_nonneg := sq_nonneg ((w.map u64.toInt).sum / (rttSampleSetSize : ℤ))
  refine ⟨⟨?_, ?_⟩, ?_, ?_⟩
  · rw [hmean, hcalc, List.length_map, hlength, Int.tdiv_eq_ediv_of_nonneg hnonneg]
    exact toNat_ofInt_of_lt hmean_nonneg (by omega)
  · rw [hvariance, hcalc, List.length_map, hlength, Int.tdiv_eq_ediv_of_nonneg hnonneg,
      Int.tdiv_eq_ediv_of_nonneg hsquares_nonneg]
    exact toNat_ofInt_of_lt (by omega) (by omega)
  · have hsum' : r.sample.sum = UInt64.ofInt _ := h.sum
    rw [hsum', toNat_ofInt_of_lt hnonneg hsum]
  · have hsquares' : r.sample.sumSquared = UInt64.ofInt _ := htracked
    rw [hsquares', toNat_ofInt_of_lt hsquares_nonneg hsquares]

theorem sum_lt {w : List UInt64} (hlength : w.length = rttSampleSetSize)
    (hbound : ∀ value ∈ w, value.toNat < 60000000000) : (w.map u64.toInt).sum < 2 ^ 64 := by
  have hle := List.sum_le_card_nsmul (w.map u64.toInt) 60000000000 (by
    simp only [List.mem_map]
    rintro _ ⟨value, hvalue, rfl⟩
    have hlt := hbound value hvalue
    change (value.toNat : ℤ) ≤ _
    omega)
  rw [List.length_map, hlength] at hle
  refine lt_of_le_of_lt hle (by decide)

/-- Mean, variance and running sums are those of the last ten round trips exactly if the
squares of these have a sum below `2 ^ 64`. -/
theorem averaged_iff (es : List RttEvent) {first : UInt64} {rest : List UInt64}
    (hround : init.roundTrips es = first :: rest)
    (hbound : ∀ value ∈ init.roundTrips es, value.toNat < 60000000000) :
    Averaged (Machine.run RttCalculator.step init es)
        ((window rttSampleSetSize first rest).map u64.toInt) ↔
      (((window rttSampleSetSize first rest).map u64.toInt).map (· ^ 2)).sum < 2 ^ 64 := by
  have hfollows := follows_init.run es
  rw [List.nil_append, hround] at hfollows
  obtain ⟨htracks, hmean, hvariance⟩ := hfollows
  have hlength := length_window (n := rttSampleSetSize) (by decide) first rest
  constructor
  · rintro ⟨-, -, hsquares⟩
    rw [← hsquares]
    exact_mod_cast UInt64.toNat_lt _
  · intro hsquares
    refine averaged_of_tracks htracks hlength hmean hvariance (sum_lt hlength ?_) hsquares
    intro value hvalue
    apply hbound
    rw [hround]
    exact List.mem_cons.mpr (mem_window (by decide) hvalue)

/-- Round trips of 30 and of 50 milliseconds. -/
theorem averaged_twoRoundTrips :
    Averaged (Machine.run RttCalculator.step init
        [.nextEntry 1000, .submitEntry (slot 0) 30001000 0,
          .nextEntry 2000, .submitEntry (slot 1) 50002000 0])
      ((window rttSampleSetSize 30000000 [50000000]).map u64.toInt) := by
  have hround : init.roundTrips [.nextEntry 1000, .submitEntry (slot 0) 30001000 0,
      .nextEntry 2000, .submitEntry (slot 1) 50002000 0] = [30000000, 50000000] := by
    decide +kernel
  have hbound : ∀ value ∈ init.roundTrips [.nextEntry 1000, .submitEntry (slot 0) 30001000 0,
      .nextEntry 2000, .submitEntry (slot 1) 50002000 0], value.toNat < 60000000000 := by
    rw [hround, List.forall_mem_cons, List.forall_mem_singleton]
    exact ⟨by decide, by decide⟩
  exact (averaged_iff _ hround hbound).mpr (by decide +kernel)

/-- After a round trip of two seconds the variance is not zero. -/
theorem not_averaged_twoSeconds :
    init.roundTrips [.nextEntry 0, .submitEntry (slot 0) 2000000000 0] = [2000000000] ∧
      ¬ Averaged (Machine.run RttCalculator.step init
          [.nextEntry 0, .submitEntry (slot 0) 2000000000 0])
        ((window rttSampleSetSize 2000000000 []).map u64.toInt) := by
  have hvariance : (Machine.run RttCalculator.step init
      [.nextEntry 0, .submitEntry (slot 0) 2000000000 0]).variance = 14757395258967641292 := by
    decide +kernel
  refine ⟨by decide +kernel, fun h => ?_⟩
  have hsecond := h.1.2
  rw [hvariance] at hsecond
  exact absurd hsecond (by decide)

end RttCalculator

end Utils

end PomeloUdp
