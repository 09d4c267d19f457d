import PomeloUdp.Utils.Rtt

/-!
# The clock

An endpoint follows the clock of the other side by an offset. Every pong gives an offset, which
goes into a sample set of ten; the clock takes over the offset, or the mean of the recent ones,
when it is too far from what the clock holds. How far depends on the level, which goes down as
the round trips and then the offsets get stable.

The lowest level, which the clock never leaves, compares the mean with the newest offset and not
with the offset that the clock holds. `bounded_iff` says of every call when the clock stays in
the bound of its level.
-/

namespace PomeloUdp

namespace Delivery

open Machine SlidingWindow Utils

/-- `POMELO_PROTOCOL_CLOCK_RECENT_OFFSETS_SIZE`. -/
def clockRecentOffsetsSize : ℕ := 10

/-- `POMELO_TIME_CONDITION_RTT_VAR_HIGH`: 10 ms. -/
def timeConditionRttVarHigh : UInt64 := 10000000 * 10000000

/-- `POMELO_TIME_CONDITION_RTT_VAR_MEDIUM`: 5 ms. -/
def timeConditionRttVarMedium : UInt64 := 5000000 * 5000000

/-- `POMELO_TIME_CONDITION_RTT_VAR_LOW`: 5 ms. -/
def timeConditionRttVarLow : UInt64 := 5000000 * 5000000

/-- `POMELO_TIME_HIGH_MIN_TIMES_OF_PING`. -/
def timeHighMinTimesOfPing : ℕ := 20

/-- `POMELO_TIME_HIGH_THRESHOLD_RTT_VAR`. -/
def timeHighThresholdRttVar : UInt64 := 5000000 * 5000000

/-- `POMELO_TIME_HIGH_MIN_DELTA_OFFSET`. -/
def timeHighMinDeltaOffset : Int64 := 5000000

/-- `POMELO_TIME_MEDIUM_THRESHOLD_RECENT_OFFSETS_VAR`. -/
def timeMediumThresholdRecentOffsetsVar : Int64 := 5000000 * 5000000

/-- `POMELO_TIME_MEDIUM_MIN_DELTA_OFFSET`. -/
def timeMediumMinDeltaOffset : Int64 := 10000000

/-- `POMELO_TIME_LOW_MIN_DELTA_MEAN_RECENT_OFFSETS`. -/
def timeLowMinDeltaMeanRecentOffsets : Int64 := 10000000

/-- `pomelo_delivery_clock_sync_level`. -/
inductive ClockSyncLevel where
  | high
  | medium
  | low
  deriving DecidableEq

/-- `pomelo_delivery_clock_t`. -/
structure Clock where
  offset : Int64
  level : ClockSyncLevel
  highSyncCount : ℕ
  recentOffsetsSample : SampleSet Int64 clockRecentOffsetsSize

/-- `calc_delta_offset`. -/
def calcDeltaOffset (first second : Int64) : Int64 :=
  if second < first then first - second else second - first

namespace Clock

/-- `pomelo_delivery_clock_init`. -/
def init : Clock where
  offset := 0
  level := .high
  highSyncCount := 0
  recentOffsetsSample := SampleSet.init i64 (by decide) (Vector.replicate _ 0)

/-- The end of every `pomelo_delivery_time_sync_*`: the clock takes over a value. -/
def resync (c : Clock) (deltaOffset minDelta value : Int64) : Clock × Bool :=
  if minDelta < deltaOffset then ({ c with offset := value }, true) else (c, false)

/-- `pomelo_delivery_time_sync_high`. -/
def timeSyncHigh (c : Clock) (rttVar : UInt64) (offset : Int64) : Clock × Bool :=
  if timeConditionRttVarHigh < rttVar then (c, false)
  else
    let c :=
      if c.highSyncCount < timeHighMinTimesOfPing then
        { c with highSyncCount := c.highSyncCount + 1 }
      else if rttVar < timeHighThresholdRttVar then { c with level := .medium }
      else c
    c.resync (calcDeltaOffset offset c.offset) timeHighMinDeltaOffset offset

/-- `pomelo_delivery_time_sync_medium`. -/
def timeSyncMedium (c : Clock) (rttVar : UInt64) (offset : Int64) : Clock × Bool :=
  if timeConditionRttVarMedium < rttVar then (c, false)
  else
    let variance := c.recentOffsetsSample.calcI64.2
    let c := if variance < timeMediumThresholdRecentOffsetsVar then { c with level := .low } else c
    c.resync (calcDeltaOffset offset c.offset) timeMediumMinDeltaOffset offset

/-- `pomelo_delivery_time_sync_low`. -/
def timeSyncLow (c : Clock) (rttVar : UInt64) (offset : Int64) : Clock × Bool :=
  if timeConditionRttVarLow < rttVar then (c, false)
  else
    let mean := c.recentOffsetsSample.calcI64.1
    c.resync (calcDeltaOffset mean offset) timeLowMinDeltaMeanRecentOffsets mean

end Clock

/-- The offset that a request and its response show. -/
def offsetOf (reqSendTime reqRecvTime resSendTime resRecvTime : UInt64) : Int64 :=
  ((reqRecvTime - reqSendTime) + (resSendTime - resRecvTime)).toInt64 / 2

/-- `pomelo_delivery_clock_sync`. -/
def Clock.sync (c : Clock) (rtt : RttCalculator)
    (reqSendTime reqRecvTime resSendTime resRecvTime : UInt64) : Clock × Bool :=
  let rttVar := rtt.variance
  let offset := offsetOf reqSendTime reqRecvTime resSendTime resRecvTime
  let c := { c with recentOffsetsSample := c.recentOffsetsSample.submitI64 offset }
  match c.level with
  | .high => c.timeSyncHigh rttVar offset
  | .medium => c.timeSyncMedium rttVar offset
  | .low => c.timeSyncLow rttVar offset

/-- A pong: the round trips so far and the times of the exchange. -/
structure ClockPong where
  rtt : RttCalculator
  reqSendTime : UInt64
  reqRecvTime : UInt64
  resSendTime : UInt64
  resRecvTime : UInt64

namespace ClockPong

/-- The offset of a pong. -/
def offset (p : ClockPong) : Int64 :=
  offsetOf p.reqSendTime p.reqRecvTime p.resSendTime p.resRecvTime

end ClockPong

namespace Clock

/-- The clock after a pong. -/
def step (c : Clock) (p : ClockPong) : Clock :=
  (c.sync p.rtt p.reqSendTime p.reqRecvTime p.resSendTime p.resRecvTime).1

/-- The clock after some pongs. -/
def after (pongs : List ClockPong) : Clock := run step init pongs

end Clock

section Deltas

/-- The numbers that an offset can be: the difference of two of them is in the range of
`int64_t`. -/
def Modest (x : Int64) : Prop := -2 ^ 62 ≤ x.toInt ∧ x.toInt < 2 ^ 62

theorem modest_offsetOf (t₀ t₁ t₂ t₃ : UInt64) : Modest (offsetOf t₀ t₁ t₂ t₃) := by
  have hge := (t₁ - t₀ + (t₂ - t₃)).toInt64.le_toInt
  have hlt := (t₁ - t₀ + (t₂ - t₃)).toInt64.toInt_lt
  have hquotient : (offsetOf t₀ t₁ t₂ t₃).toInt = (t₁ - t₀ + (t₂ - t₃)).toInt64.toInt.tdiv 2 :=
    Int64.toInt_div_of_ne_right _ _ (by decide)
  rw [Modest, hquotient, Int.tdiv_eq_ediv]
  split
  · omega
  · rw [Int.sign_eq_one_of_pos (by decide)]
    omega

theorem modest_mean (s : SampleSet Int64 clockRecentOffsetsSize) : Modest s.calcI64.1 := by
  have hlt := s.sum.toUInt64.toNat_lt
  have hmean : s.calcI64.1.toInt =
      ((s.sum.toUInt64 / UInt64.ofNat clockRecentOffsetsSize).toNat : ℤ).bmod (2 ^ 64) :=
    BitVec.toInt_eq_toNat_bmod _
  have hquotient : (s.sum.toUInt64 / UInt64.ofNat clockRecentOffsetsSize).toNat =
      s.sum.toUInt64.toNat / 10 := UInt64.toNat_div _ _
  rw [Modest, hmean, hquotient, bmod_of_lt (by omega) (by omega)]
  omega

theorem lt_calcDeltaOffset_iff {x y : Int64} (hx : Modest x) (hy : Modest y) (bound : Int64) :
    bound < calcDeltaOffset x y ↔ bound.toInt < |x.toInt - y.toInt| := by
  obtain ⟨hx, hx'⟩ := hx
  obtain ⟨hy, hy'⟩ := hy
  rw [calcDeltaOffset, Int64.lt_iff_toInt_lt]
  by_cases hlt : y < x
  · have hlt' := Int64.lt_iff_toInt_lt.mp hlt
    rw [if_pos hlt, Int64.toInt_sub, bmod_of_lt (by omega) (by omega), abs_of_pos (by omega)]
  · have hle := not_lt.mp (Int64.lt_iff_toInt_lt.not.mp hlt)
    rw [if_neg hlt, Int64.toInt_sub, bmod_of_lt (by omega) (by omega), abs_sub_comm,
      abs_of_nonneg (by omega)]

end Deltas

namespace Clock

variable {c c' : Clock}

/-- What every level leaves as it is. -/
structure Moves (c c' : Clock) : Prop where
  sample : c'.recentOffsetsSample = c.recentOffsetsSample
  count : c'.highSyncCount ≤ c.highSyncCount + 1
  level : c'.level ≠ .high → c.level ≠ .high ∨ timeHighMinTimesOfPing ≤ c.highSyncCount
  offset : c'.offset = c.offset ∨ Modest c'.offset

theorem Moves.resync (h : Moves c c') (deltaOffset minDelta : Int64) {value : Int64}
    (hvalue : Modest value) : Moves c (c'.resync deltaOffset minDelta value).1 := by
  rw [Clock.resync]
  split
  · exact { h with offset := .inr hvalue }
  · exact h

theorem moves_timeSyncHigh (rttVar : UInt64) {offset : Int64} (hoffset : Modest offset) :
    Moves c (c.timeSyncHigh rttVar offset).1 := by
  have hsame : Moves c c := ⟨rfl, Nat.le_succ _, .inl, .inl rfl⟩
  rw [timeSyncHigh]
  split
  · exact hsame
  · apply Moves.resync _ _ _ hoffset
    split
    · exact { hsame with count := le_rfl }
    next hcount =>
      split
      · exact { hsame with level := fun _ => .inr (not_lt.mp hcount) }
      · exact hsame

theorem moves_timeSyncMedium (rttVar : UInt64) {offset : Int64} (hoffset : Modest offset)
    (hlevel : c.level = .medium) : Moves c (c.timeSyncMedium rttVar offset).1 := by
  have hsame : Moves c c := ⟨rfl, Nat.le_succ _, .inl, .inl rfl⟩
  have hmedium : c.level ≠ .high := by simp [hlevel]
  rw [timeSyncMedium]
  split
  · exact hsame
  · apply Moves.resync _ _ _ hoffset
    split
    · exact { hsame with level := fun _ => .inl hmedium }
    · exact hsame

theorem moves_timeSyncLow (rttVar : UInt64) (offset : Int64) :
    Moves c (c.timeSyncLow rttVar offset).1 := by
  have hsame : Moves c c := ⟨rfl, Nat.le_succ _, .inl, .inl rfl⟩
  rw [timeSyncLow]
  split
  · exact hsame
  · exact hsame.resync _ _ (modest_mean _)

/-- The clock with the offset of a pong in the sample set. -/
def submit (c : Clock) (p : ClockPong) : Clock :=
  { c with recentOffsetsSample := c.recentOffsetsSample.submitI64 p.offset }

theorem step_eq (c : Clock) (p : ClockPong) :
    c.step p = match c.level with
      | .high => ((c.submit p).timeSyncHigh p.rtt.variance p.offset).1
      | .medium => ((c.submit p).timeSyncMedium p.rtt.variance p.offset).1
      | .low => ((c.submit p).timeSyncLow p.rtt.variance p.offset).1 := by
  cases hlevel : c.level with
  | high => simp [step, sync, submit, ClockPong.offset, hlevel]
  | medium => simp [step, sync, submit, ClockPong.offset, hlevel]
  | low => simp [step, sync, submit, ClockPong.offset, hlevel]

theorem moves_step (c : Clock) (p : ClockPong) : Moves (c.submit p) (c.step p) := by
  have hoffset : Modest p.offset := modest_offsetOf _ _ _ _
  rw [step_eq]
  cases hlevel : c.level with
  | high => exact moves_timeSyncHigh _ hoffset
  | medium => exact moves_timeSyncMedium _ hoffset hlevel
  | low => exact moves_timeSyncLow _ _

/-- The sample set after some offsets. -/
def Sampled (s : SampleSet Int64 clockRecentOffsetsSize) : List Int64 → Prop
  | [] => s.initialized = false
  | first :: rest => SampleSet.Tracks i64 s (window clockRecentOffsetsSize first rest)

theorem Sampled.submit {s : SampleSet Int64 clockRecentOffsetsSize} {offsets : List Int64}
    (h : Sampled s offsets) (offset : Int64) :
    Sampled (s.submitI64 offset) (offsets ++ [offset]) := by
  cases offsets with
  | nil => exact SampleSet.tracks_first h offset
  | cons first rest =>
      have htracks := SampleSet.Tracks.submit h offset
      rw [window, ← List.foldl_concat push] at htracks
      exact htracks

/-- What holds of the clock after some pongs. -/
structure Tracked (c : Clock) (pongs : List ClockPong) : Prop where
  sampled : Sampled c.recentOffsetsSample (pongs.map ClockPong.offset)
  modest : Modest c.offset
  count : c.highSyncCount ≤ pongs.length
  level : c.level ≠ .high → timeHighMinTimesOfPing ≤ pongs.length

theorem tracked_init : Tracked init [] :=
  ⟨rfl, ⟨by decide, by decide⟩, le_rfl, fun h => absurd rfl h⟩

theorem Tracked.step {pongs : List ClockPong} (h : Tracked c pongs) (p : ClockPong) :
    Tracked (c.step p) (pongs ++ [p]) := by
  have hmoves := moves_step c p
  have hlength : (pongs ++ [p]).length = pongs.length + 1 := List.length_append ..
  refine ⟨?_, ?_, ?_, ?_⟩
  · rw [hmoves.sample, List.map_append, List.map_singleton]
    exact h.sampled.submit p.offset
  · rcases hmoves.offset with hoffset | hoffset
    · rw [hoffset]
      exact h.modest
    · exact hoffset
  · rw [hlength]
    exact hmoves.count.trans (Nat.succ_le_succ h.count)
  · intro hlevel
    rw [hlength]
    rcases hmoves.level hlevel with hbefore | hcount
    · exact Nat.le_succ_of_le (h.level hbefore)
    · exact Nat.le_succ_of_le (hcount.trans h.count)

theorem after_concat (pongs : List ClockPong) (p : ClockPong) :
    after (pongs ++ [p]) = (after pongs).step p := by
  rw [after, run_append, run_cons, run_nil, after]

theorem tracked_after (pongs : List ClockPong) : Tracked (after pongs) pongs := by
  induction pongs using List.reverseRecOn with
  | nil => exact tracked_init
  | append_singleton pongs p ih =>
      rw [after_concat]
      exact ih.step p

end Clock

section Bound

open Clock

/-- The last ten offsets. -/
def recentOffsets (pongs : List ClockPong) : List ℤ :=
  (pongs.map fun p => p.offset.toInt).drop (pongs.length - clockRecentOffsetsSize)

/-- The mean of the last ten offsets, truncated. -/
def meanOffset (pongs : List ClockPong) : ℤ :=
  (recentOffsets pongs).sum.tdiv clockRecentOffsetsSize

/-- The offset `held` is in the bound of a level, unless the round trips vary too much. -/
def InBound (level : ClockSyncLevel) (rttVar : UInt64) (held newest mean : ℤ) : Prop :=
  match level with
  | .high => rttVar ≤ timeConditionRttVarHigh → |held - newest| ≤ 5000000
  | .medium => rttVar ≤ timeConditionRttVarMedium → |held - newest| ≤ 10000000
  | .low => rttVar ≤ timeConditionRttVarLow → |held - mean| ≤ 10000000

instance : ∀ level rttVar held newest mean, Decidable (InBound level rttVar held newest mean)
  | .high, rttVar, held, newest, _ =>
      inferInstanceAs (Decidable (rttVar ≤ timeConditionRttVarHigh → |held - newest| ≤ 5000000))
  | .medium, rttVar, held, newest, _ =>
      inferInstanceAs (Decidable (rttVar ≤ timeConditionRttVarMedium → |held - newest| ≤ 10000000))
  | .low, rttVar, held, _, mean =>
      inferInstanceAs (Decidable (rttVar ≤ timeConditionRttVarLow → |held - mean| ≤ 10000000))

/-- After the pong the clock is in the bound of the level that handled it. -/
def Bounded (pongs : List ClockPong) (p : ClockPong) : Prop :=
  InBound (after pongs).level p.rtt.variance (after (pongs ++ [p])).offset.toInt p.offset.toInt
    (meanOffset (pongs ++ [p]))

/-- A pong that the lowest level handles: if the sum of the recent offsets is a number of
`uint64_t`, then the mean is far from the newest offset or near to what the clock holds. If it is
not, then the quotient that is taken for the mean is near to the newest offset and the mean near to
what the clock holds. -/
def KeepsUp (pongs : List ClockPong) (p : ClockPong) : Prop :=
  (after pongs).level = .low → p.rtt.variance ≤ timeConditionRttVarLow →
    let sum := (recentOffsets (pongs ++ [p])).sum
    let held := (after pongs).offset.toInt
    if 0 ≤ sum ∧ sum < 2 ^ 64 then
      10000000 < |sum / 10 - p.offset.toInt| ∨ |held - sum / 10| ≤ 10000000
    else
      |sum % 2 ^ 64 / 10 - p.offset.toInt| ≤ 10000000 ∧ |held - sum.tdiv 10| ≤ 10000000

section Reference

variable {c : Clock} {rttVar : UInt64}

theorem resync_offset (deltaOffset minDelta value : Int64) :
    (c.resync deltaOffset minDelta value).1.offset =
      if minDelta < deltaOffset then value else c.offset := by
  rw [Clock.resync]
  split <;> rfl

theorem offset_timeSyncHigh (hvar : rttVar ≤ timeConditionRttVarHigh) (offset : Int64) :
    (c.timeSyncHigh rttVar offset).1.offset =
      if timeHighMinDeltaOffset < calcDeltaOffset offset c.offset then offset else c.offset := by
  rw [timeSyncHigh, if_neg (UInt64.not_lt.mpr hvar), resync_offset]
  split
  · rfl
  · split <;> rfl

theorem offset_timeSyncMedium (hvar : rttVar ≤ timeConditionRttVarMedium) (offset : Int64) :
    (c.timeSyncMedium rttVar offset).1.offset =
      if timeMediumMinDeltaOffset < calcDeltaOffset offset c.offset then offset
      else c.offset := by
  rw [timeSyncMedium, if_neg (UInt64.not_lt.mpr hvar), resync_offset]
  split <;> rfl

theorem offset_timeSyncLow (hvar : rttVar ≤ timeConditionRttVarLow) (offset : Int64) :
    (c.timeSyncLow rttVar offset).1.offset =
      if timeLowMinDeltaMeanRecentOffsets <
        calcDeltaOffset c.recentOffsetsSample.calcI64.1 offset then c.recentOffsetsSample.calcI64.1
      else c.offset := by
  rw [timeSyncLow, if_neg (UInt64.not_lt.mpr hvar), resync_offset]

theorem near_newest {newest held bound : Int64} (hnewest : Modest newest) (hheld : Modest held)
    (hbound : 0 ≤ bound.toInt) :
    |(if bound < calcDeltaOffset newest held then newest else held).toInt - newest.toInt| ≤
      bound.toInt := by
  have hiff := lt_calcDeltaOffset_iff hnewest hheld bound
  split
  · rwa [sub_self, abs_zero]
  next hle =>
    rw [abs_sub_comm]
    exact not_lt.mp (hiff.not.mp hle)

end Reference

section Mean

theorem far_of_overflow {sum : ℤ} (hout : ¬(0 ≤ sum ∧ sum < 2 ^ 64)) :
    10000000 < |sum % 2 ^ 64 / 10 - sum.tdiv 10| := by
  rw [Int.tdiv_eq_ediv, Int.sign_eq_one_of_pos (by decide)]
  rcases not_and_or.mp hout with hneg | hlarge
  · exact lt_abs.mpr (.inl (by split <;> omega))
  · rw [if_pos (.inl (by omega))]
    exact lt_abs.mpr (.inr (by omega))

theorem keepsUp_iff {sum newest held : ℤ} :
    |(if 10000000 < |sum % 2 ^ 64 / 10 - newest| then sum % 2 ^ 64 / 10 else held) -
        sum.tdiv 10| ≤ 10000000 ↔
      if 0 ≤ sum ∧ sum < 2 ^ 64 then
        10000000 < |sum / 10 - newest| ∨ |held - sum / 10| ≤ 10000000
      else |sum % 2 ^ 64 / 10 - newest| ≤ 10000000 ∧ |held - sum.tdiv 10| ≤ 10000000 := by
  by_cases hin : 0 ≤ sum ∧ sum < 2 ^ 64
  · rw [if_pos hin, Int.emod_eq_of_lt hin.1 hin.2, Int.tdiv_eq_ediv_of_nonneg hin.1]
    by_cases hfar : 10000000 < |sum / 10 - newest|
    · simp [hfar]
    · simp [hfar]
  · have hmean := far_of_overflow hin
    rw [if_neg hin]
    by_cases hfar : 10000000 < |sum % 2 ^ 64 / 10 - newest|
    · rw [if_pos hfar]
      exact iff_of_false (not_le.mpr hmean) fun h => absurd hfar (not_lt.mpr h.1)
    · rw [if_neg hfar, and_iff_right (not_lt.mp hfar)]

theorem recentOffsets_eq {pongs : List ClockPong} {first : Int64} {rest : List Int64}
    (hoffsets : pongs.map ClockPong.offset = first :: rest)
    (hlength : clockRecentOffsetsSize ≤ pongs.length) :
    (window clockRecentOffsetsSize first rest).map Int64.toInt = recentOffsets pongs := by
  have hrest : pongs.length = rest.length + 1 := by
    rw [← List.length_map (f := ClockPong.offset), hoffsets, List.length_cons]
  rw [window_eq_drop_of_le (by decide) (hrest ▸ hlength), ← hoffsets, ← hrest, List.map_drop,
    List.map_map]
  rfl

theorem toInt_mean {s : SampleSet Int64 clockRecentOffsetsSize} {pongs : List ClockPong}
    (h : Sampled s (pongs.map ClockPong.offset))
    (hlength : clockRecentOffsetsSize ≤ pongs.length) :
    s.calcI64.1.toInt = (recentOffsets pongs).sum % 2 ^ 64 / 10 := by
  cases hoffsets : pongs.map ClockPong.offset with
  | nil =>
      rw [List.map_eq_nil_iff.mp hoffsets] at hlength
      exact absurd hlength (by decide)
  | cons first rest =>
      rw [hoffsets] at h
      have hcalc := SampleSet.Tracks.calcSample h (by decide)
      have hwindow := recentOffsets_eq hoffsets hlength
      change s.calcI64 = _ at hcalc
      rw [hcalc]
      change (UInt64.ofInt
        (((window _ first rest).map Int64.toInt).sum % 2 ^ 64 / 10)).toInt64.toInt
        = _
      rw [hwindow, toInt_toInt64_ofInt, bmod_of_lt (by omega) (by omega)]

end Mean

/-- After a pong the clock is in the bound of the level that handled it exactly if the lowest
level, where it handles the pong, keeps up with the offsets. -/
theorem bounded_iff (pongs : List ClockPong) (p : ClockPong) :
    Bounded pongs p ↔ KeepsUp pongs p := by
  have htracked := tracked_after pongs
  have hnewest : Modest p.offset := modest_offsetOf _ _ _ _
  rw [Bounded, KeepsUp, after_concat, step_eq]
  cases hlevel : (after pongs).level with
  | high =>
      refine iff_of_true (fun hvar => ?_) nofun
      rw [offset_timeSyncHigh hvar]
      exact near_newest hnewest htracked.modest (by decide)
  | medium =>
      refine iff_of_true (fun hvar => ?_) nofun
      rw [offset_timeSyncMedium hvar]
      exact near_newest hnewest htracked.modest (by decide)
  | low =>
      have hlong : timeHighMinTimesOfPing ≤ pongs.length := htracked.level (by simp [hlevel])
      have hlength : clockRecentOffsetsSize ≤ (pongs ++ [p]).length := by
        rw [List.length_append]
        exact (show _ ≤ timeHighMinTimesOfPing by decide).trans (hlong.trans (Nat.le_add_right _ _))
      have hsampled : Sampled ((after pongs).submit p).recentOffsetsSample
          ((pongs ++ [p]).map ClockPong.offset) := by
        rw [List.map_append, List.map_singleton]
        exact htracked.sampled.submit p.offset
      have hmean := toInt_mean hsampled hlength
      refine Iff.trans ?_ (forall_prop_of_true rfl).symm
      refine forall_congr' fun hvar => ?_
      have hiff := lt_calcDeltaOffset_iff
        (modest_mean ((after pongs).submit p).recentOffsetsSample) hnewest
        timeLowMinDeltaMeanRecentOffsets
      rw [hmean] at hiff
      rw [offset_timeSyncLow hvar, if_congr hiff rfl rfl, apply_ite Int64.toInt, hmean]
      exact keepsUp_iff

/-- The `n`-th pong of a clock that gains a millisecond from pong to pong. -/
def driftingPong (n : ℕ) : ClockPong where
  rtt := .init
  reqSendTime := 1000
  reqRecvTime := 1000 + 1000000 * UInt64.ofNat n
  resSendTime := 1000 + 1000000 * UInt64.ofNat n
  resRecvTime := 1000

/-- After 40 milliseconds the clock is still where the lowest level found it. -/
theorem not_bounded_drift : ¬ Bounded ((List.range 40).map driftingPong) (driftingPong 40) := by
  rw [Bounded]
  decide +kernel

end Bound

end Delivery

end PomeloUdp
