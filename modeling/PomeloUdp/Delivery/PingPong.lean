import PomeloUdp.Utils.Rtt

/-!
# Pings and their pongs

The numbers of the pings start again from zero after 65536 of them, and their entries are kept
in twenty slots. 65536 is no multiple of twenty, so after a wrap the slots are taken in another
order. A pong brings the number of its ping back, and `recvPong` looks for the entry.

A slot holds the newest of the pings that were written to it (`Kept`). Two pings with one number
and one slot are 65536 pings apart, so a pong that answers one of the last 65536 pings finds the
entry of its own ping or none (`matched_run`).
-/

namespace PomeloUdp

namespace Delivery

open Machine Utils

/-- The round trip part of `pomelo_delivery_endpoint_recv_pong`, and the sample that it
submits. -/
def recvPongEntry (rtt : RttCalculator) (sequence recvTime : UInt64) :
    RttCalculator × Option UInt64 :=
  match rtt.entry sequence with
  | none => (rtt, none)
  | some i => (rtt.submitEntry i recvTime 0, rtt.roundTrip i recvTime 0)

/-- The entry that `pomelo_rtt_calculator_next_entry` returns. -/
def sentEntry (rtt : RttCalculator) (time : UInt64) : RttEntry :=
  (rtt.nextEntry time).entries.get (RttCalculator.slot rtt.entrySequence)

/-- A calculator, the pings as they were sent, and the samples with the number of the ping that
was answered. -/
structure PingExchange where
  rtt : RttCalculator
  pings : List RttEntry
  samples : List (ℕ × UInt64)

/-- A ping is sent, or a pong arrives that answers the `k`-th ping. -/
inductive PingEvent where
  | ping (time : UInt64)
  | pong (k : ℕ) (recvTime : UInt64)

namespace PingExchange

/-- No ping yet. -/
def start : PingExchange := ⟨.init, [], []⟩

/-- What a pong does to the calculator, and the sample. -/
def receive (s : PingExchange) (k : ℕ) (recvTime : UInt64) : RttCalculator × Option UInt64 :=
  match s.pings[k]? with
  | none => (s.rtt, none)
  | some p => recvPongEntry s.rtt p.sequence recvTime

/-- One event. -/
def step (s : PingExchange) : PingEvent → PingExchange
  | .ping time =>
      { s with rtt := s.rtt.nextEntry time, pings := s.pings ++ [sentEntry s.rtt time] }
  | .pong k recvTime =>
      { s with
        rtt := (s.receive k recvTime).1
        samples := s.samples ++ ((s.receive k recvTime).2.map (k, ·)).toList }

/-- The exchange after some events. -/
def after (es : List PingEvent) : PingExchange := run step start es

/-- A pong answers one of the last 65536 pings. -/
def Recent (s : PingExchange) : PingEvent → Prop
  | .ping _ => True
  | .pong k _ => k < s.pings.length ∧ s.pings.length ≤ k + 65536

instance (s : PingExchange) : ∀ e, Decidable (Recent s e)
  | .ping _ => inferInstanceAs (Decidable True)
  | .pong k _ => inferInstanceAs (Decidable (k < s.pings.length ∧ s.pings.length ≤ k + 65536))

end PingExchange

/-- The times at which the pings are sent. -/
def sendTimes : List PingEvent → List UInt64
  | [] => []
  | .ping time :: es => time :: sendTimes es
  | .pong _ _ :: es => sendTimes es

theorem sendTimes_append (es fs : List PingEvent) :
    sendTimes (es ++ fs) = sendTimes es ++ sendTimes fs := by
  induction es with
  | nil => rfl
  | cons e es ih =>
      cases e with
      | ping time => exact congrArg (time :: ·) ih
      | pong k recvTime => exact ih

/-- The number that the `k`-th ping carries. -/
def pingSequence (k : ℕ) : UInt64 := UInt64.ofNat (k % 65536)

/-- The slot of the `k`-th ping. -/
def pingSlot (k : ℕ) : Fin rttEntryBufferSize := RttCalculator.slot (pingSequence k)

section Numbers

theorem toNat_pingSequence (k : ℕ) : (pingSequence k).toNat = k % 65536 := by
  rw [pingSequence, UInt64.toNat_ofNat']
  omega

theorem pingSequence_inj {j k : ℕ} (heq : pingSequence j = pingSequence k) (hle : k ≤ j)
    (hnear : j < k + 65536) : j = k := by
  have hmod := congrArg UInt64.toNat heq
  rw [toNat_pingSequence, toNat_pingSequence] at hmod
  omega

theorem pingSequence_succ (k : ℕ) :
    (if rttMaxSequence < pingSequence k + 1 then 0 else pingSequence k + 1) =
      pingSequence (k + 1) := by
  have hsucc : (pingSequence k + 1).toNat = k % 65536 + 1 := by
    rw [UInt64.toNat_add, toNat_pingSequence]
    change (k % 65536 + 1) % 2 ^ 64 = _
    omega
  have hlt : rttMaxSequence < pingSequence k + 1 ↔ 65535 < k % 65536 + 1 := by
    rw [UInt64.lt_iff_toNat_lt, hsucc]
    rfl
  apply UInt64.toNat_inj.mp
  by_cases hlast : 65535 < k % 65536 + 1
  · rw [if_pos (hlt.mpr hlast), toNat_pingSequence]
    change 0 = _
    omega
  · rw [if_neg (hlt.not.mpr hlast), toNat_pingSequence, hsucc]
    omega

end Numbers

/-- A later one of the first `n` pings took the slot of the `k`-th. -/
def Overwritten (n k : ℕ) : Prop := ∃ j, k < j ∧ j < n ∧ pingSlot j = pingSlot k

instance (n k : ℕ) : Decidable (Overwritten n k) :=
  decidable_of_iff (∃ j, j < n ∧ k < j ∧ pingSlot j = pingSlot k)
    (exists_congr fun _ => and_left_comm)

/-- What a slot holds after pings at some times: no ping came to it, or it holds the newest one
that did, which is valid until it is answered. -/
def Kept (times : List UInt64) (used : List ℕ) (i : Fin rttEntryBufferSize) (e : RttEntry) :
    Prop :=
  (e.valid = false ∧ ∀ j, j < times.length → pingSlot j ≠ i) ∨
    ∃ j time, times[j]? = some time ∧ pingSlot j = i ∧ ¬ Overwritten times.length j ∧
      e.time = time ∧ e.sequence = pingSequence j ∧ (e.valid = true ↔ j ∉ used)

/-- The pings that have a sample. -/
def PingExchange.used (s : PingExchange) : List ℕ := s.samples.map Prod.fst

/-- What holds of an exchange after pings at some times. -/
structure Matched (s : PingExchange) (times : List UInt64) : Prop where
  next : s.rtt.entrySequence = pingSequence times.length
  length : s.pings.length = times.length
  sequence : ∀ k p, s.pings[k]? = some p → p.sequence = pingSequence k
  kept : ∀ i, Kept times s.used i (s.rtt.entries.get i)
  nodup : s.used.Nodup
  sent : ∀ k ∈ s.used, k < times.length

section Slots

theorem get_set_self {α : Type*} {n : ℕ} (v : Vector α n) (i : Fin n) (x : α) :
    (v.set i x i.isLt).get i = x := Vector.getElem_set_self i.isLt

theorem get_set_ne {α : Type*} {n : ℕ} {v : Vector α n} {i j : Fin n} (hne : i ≠ j) {x : α} :
    (v.set i x i.isLt).get j = v.get j :=
  Vector.getElem_set_ne i.isLt j.isLt (Fin.val_ne_of_ne hne)

variable {times : List UInt64} {used : List ℕ} {i : Fin rttEntryBufferSize} {e : RttEntry} {k : ℕ}

theorem Kept.present (h : Kept times used (pingSlot k) e) (hk : k < times.length)
    (hwritten : ¬ Overwritten times.length k) (hused : k ∉ used) :
    e.valid = true ∧ e.sequence = pingSequence k ∧ times[k]? = some e.time := by
  rcases h with ⟨-, hnone⟩ | ⟨j, time, hj, hslot, hnewest, rfl, hsequence, hvalid⟩
  · exact absurd rfl (hnone k hk)
  · have hlt := (List.getElem?_eq_some_iff.mp hj).1
    have heq : j = k := by
      by_contra hne
      rcases Nat.lt_or_gt_of_ne hne with hjk | hkj
      · exact hnewest ⟨k, hjk, hk, hslot.symm⟩
      · exact hwritten ⟨j, hkj, hlt, hslot⟩
    subst heq
    exact ⟨hvalid.mpr hused, hsequence, hj⟩

theorem Kept.absent (h : Kept times used (pingSlot k) e) (hk : k < times.length)
    (hrecent : times.length ≤ k + 65536) (hgone : Overwritten times.length k ∨ k ∈ used) :
    e.valid = false ∨ e.sequence ≠ pingSequence k := by
  rcases h with ⟨hvalid, -⟩ | ⟨j, time, hj, hslot, hnewest, -, hsequence, hvalid⟩
  · exact .inl hvalid
  · have hlt := (List.getElem?_eq_some_iff.mp hj).1
    have hle : k ≤ j := by
      by_contra hjk
      exact hnewest ⟨k, not_le.mp hjk, hk, hslot.symm⟩
    by_cases heq : e.sequence = pingSequence k
    · rw [hsequence] at heq
      obtain rfl := pingSequence_inj heq hle (by omega)
      refine .inl ?_
      rw [← Bool.not_eq_true, hvalid, not_not]
      exact hgone.resolve_left hnewest
    · exact .inr heq

theorem entries_nextEntry {rtt : RttCalculator} {sequence : UInt64}
    (h : rtt.entrySequence = sequence) (time : UInt64) :
    (rtt.nextEntry time).entries =
      rtt.entries.set (RttCalculator.slot sequence) ⟨time, true, sequence⟩ := by
  subst h
  rfl

theorem kept_sent (hused : times.length ∉ used) (time : UInt64) :
    Kept (times ++ [time]) used (pingSlot times.length)
      ⟨time, true, pingSequence times.length⟩ := by
  refine .inr ⟨times.length, time, ?_, rfl, ?_, rfl, rfl, iff_of_true rfl hused⟩
  · simp
  · rintro ⟨j, hlt, hlt', -⟩
    rw [List.length_append, List.length_singleton] at hlt'
    omega

theorem Kept.sent (h : Kept times used i e) (hslot : pingSlot times.length ≠ i) (time : UInt64) :
    Kept (times ++ [time]) used i e := by
  have hlength : (times ++ [time]).length = times.length + 1 := by simp
  rcases h with ⟨hvalid, hnone⟩ | ⟨j, t, hj, hi, hnewest, hrest⟩
  · refine .inl ⟨hvalid, fun j hj => ?_⟩
    rw [hlength] at hj
    rcases Nat.lt_succ_iff_lt_or_eq.mp hj with hlt | rfl
    · exact hnone j hlt
    · exact hslot
  · have hlt := (List.getElem?_eq_some_iff.mp hj).1
    refine .inr ⟨j, t, ?_, hi, ?_, hrest⟩
    · rw [List.getElem?_append_left hlt, hj]
    · rintro ⟨l, hl, hl', hsame⟩
      rw [hlength] at hl'
      rcases Nat.lt_succ_iff_lt_or_eq.mp hl' with hlt' | rfl
      · exact hnewest ⟨l, hl, hlt', hsame⟩
      · exact hslot (hsame.trans hi)

theorem Kept.answered (h : Kept times used (pingSlot k) e) (hk : k < times.length)
    (hwritten : ¬ Overwritten times.length k) (hused : k ∉ used) :
    Kept times (used ++ [k]) (pingSlot k) ⟨e.time, false, e.sequence⟩ := by
  obtain ⟨-, hsequence, htime⟩ := h.present hk hwritten hused
  exact .inr ⟨k, e.time, htime, rfl, hwritten, rfl, hsequence, by simp⟩

theorem Kept.other (h : Kept times used i e) (hslot : pingSlot k ≠ i) :
    Kept times (used ++ [k]) i e := by
  rcases h with hnone | ⟨j, t, hj, hi, hnewest, htime, hsequence, hvalid⟩
  · exact .inl hnone
  · refine .inr ⟨j, t, hj, hi, hnewest, htime, hsequence, ?_⟩
    have hne : j ≠ k := fun heq => hslot (heq ▸ hi)
    rw [hvalid, List.mem_append, List.mem_singleton, or_iff_left hne]

end Slots

section Steps

variable {s : PingExchange} {times : List UInt64} {k : ℕ}

theorem matched_start : Matched .start [] where
  next := rfl
  length := rfl
  sequence := nofun
  kept _ := .inl ⟨congrArg RttEntry.valid (Vector.getElem_replicate ..), nofun⟩
  nodup := List.nodup_nil
  sent := nofun

theorem Matched.receive_absent (h : Matched s times) (hk : k < times.length)
    (hrecent : times.length ≤ k + 65536) (hgone : Overwritten times.length k ∨ k ∈ s.used)
    (recvTime : UInt64) : s.receive k recvTime = (s.rtt, none) := by
  obtain ⟨ping, hping⟩ : ∃ ping, s.pings[k]? = some ping :=
    ⟨_, List.getElem?_eq_getElem (h.length ▸ hk)⟩
  have habsent := (h.kept (pingSlot k)).absent hk hrecent hgone
  have hentry : s.rtt.entry (pingSequence k) = none := by
    rw [RttCalculator.entry]
    exact if_pos (by simpa [pingSlot] using habsent)
  rw [PingExchange.receive, hping]
  change recvPongEntry _ _ _ = _
  rw [h.sequence k _ hping, recvPongEntry, hentry]

theorem Matched.receive_present (h : Matched s times) {time : UInt64}
    (htime : times[k]? = some time) (hwritten : ¬ Overwritten times.length k) (hused : k ∉ s.used)
    (recvTime : UInt64) :
    s.receive k recvTime =
      (s.rtt.submitEntry (pingSlot k) recvTime 0, some (recvTime - time)) := by
  have hk := (List.getElem?_eq_some_iff.mp htime).1
  obtain ⟨ping, hping⟩ : ∃ ping, s.pings[k]? = some ping :=
    ⟨_, List.getElem?_eq_getElem (h.length ▸ hk)⟩
  obtain ⟨hvalid, hsequence, hsame⟩ := (h.kept (pingSlot k)).present hk hwritten hused
  have htime' : (s.rtt.entries.get (pingSlot k)).time = time :=
    Option.some.inj (hsame.symm.trans htime)
  have hentry : s.rtt.entry (pingSequence k) = some (pingSlot k) := by
    rw [RttCalculator.entry]
    exact if_neg (by simpa using ⟨hvalid, hsequence⟩)
  have hvalue : s.rtt.roundTrip (pingSlot k) recvTime 0 = some (recvTime - time) := by
    rw [RttCalculator.roundTrip, htime']
    simp
  rw [PingExchange.receive, hping]
  change recvPongEntry _ _ _ = _
  rw [h.sequence k _ hping, recvPongEntry, hentry]
  exact congrArg _ hvalue

theorem Matched.ping (h : Matched s times) (time : UInt64) :
    Matched (s.step (.ping time)) (times ++ [time]) := by
  have hlength : (times ++ [time]).length = times.length + 1 := by simp
  have hsent : sentEntry s.rtt time = ⟨time, true, pingSequence times.length⟩ := by
    rw [← h.next]
    exact Vector.getElem_set_self _
  refine ⟨?_, ?_, ?_, ?_, h.nodup, ?_⟩
  · rw [hlength, ← pingSequence_succ, ← h.next]
    rfl
  · rw [hlength, ← h.length]
    exact List.length_append
  · intro k p hp
    have hp : (s.pings ++ [sentEntry s.rtt time])[k]? = some p := hp
    by_cases hk : k < s.pings.length
    · rw [List.getElem?_append_left hk] at hp
      exact h.sequence k p hp
    · have hlast := (List.getElem?_eq_some_iff.mp hp).1
      rw [List.length_append, List.length_singleton] at hlast
      obtain rfl : k = s.pings.length := by omega
      rw [List.getElem?_concat_length, hsent] at hp
      rw [← Option.some.inj hp, h.length]
  · intro i
    have hfresh : times.length ∉ s.used := fun hmem => (h.sent _ hmem).false
    have hentries : (s.step (.ping time)).rtt.entries =
        s.rtt.entries.set (pingSlot times.length) ⟨time, true, pingSequence times.length⟩ :=
      entries_nextEntry h.next time
    rw [hentries]
    by_cases hslot : pingSlot times.length = i
    · rw [← hslot, get_set_self]
      exact kept_sent hfresh time
    · rw [get_set_ne hslot]
      exact (h.kept i).sent hslot time
  · intro k hk
    rw [hlength]
    exact Nat.lt_succ_of_lt (h.sent k hk)

theorem step_of_receive_none {recvTime : UInt64} (h : s.receive k recvTime = (s.rtt, none)) :
    s.step (.pong k recvTime) = s := by
  rw [PingExchange.step, h]
  simp

theorem Matched.pong_present (h : Matched s times) {time : UInt64}
    (htime : times[k]? = some time) (hwritten : ¬ Overwritten times.length k) (hused : k ∉ s.used)
    (recvTime : UInt64) : Matched (s.step (.pong k recvTime)) times := by
  have hk := (List.getElem?_eq_some_iff.mp htime).1
  have hreceive := h.receive_present htime hwritten hused recvTime
  have hentries : (s.rtt.submitEntry (pingSlot k) recvTime 0).entries =
      s.rtt.entries.set (pingSlot k)
        ⟨(s.rtt.entries.get (pingSlot k)).time, false,
          (s.rtt.entries.get (pingSlot k)).sequence⟩ := by
    rw [RttCalculator.submitEntry]
    split <;> rfl
  have hsequence : (s.rtt.submitEntry (pingSlot k) recvTime 0).entrySequence =
      s.rtt.entrySequence := by
    rw [RttCalculator.submitEntry]
    split <;> rfl
  have hsamples : (s.step (.pong k recvTime)).used = s.used ++ [k] := by
    rw [PingExchange.used, PingExchange.step, hreceive]
    simp [PingExchange.used]
  have hrtt : (s.step (.pong k recvTime)).rtt = s.rtt.submitEntry (pingSlot k) recvTime 0 := by
    rw [PingExchange.step, hreceive]
  refine ⟨?_, h.length, h.sequence, ?_, ?_, ?_⟩
  · rw [hrtt, hsequence, h.next]
  · intro i
    rw [hrtt, hentries, hsamples]
    by_cases hslot : pingSlot k = i
    · rw [← hslot, get_set_self]
      exact (h.kept (pingSlot k)).answered hk hwritten hused
    · rw [get_set_ne hslot]
      exact (h.kept i).other hslot
  · rw [hsamples]
    exact h.nodup.append (List.nodup_singleton k) (List.disjoint_singleton.mpr hused)
  · intro j hj
    rw [hsamples, List.mem_append, List.mem_singleton] at hj
    rcases hj with hj | rfl
    · exact h.sent j hj
    · exact hk

theorem Matched.step (h : Matched s times) {e : PingEvent} (hrecent : s.Recent e) :
    Matched (s.step e) (times ++ sendTimes [e]) := by
  cases e with
  | ping time => exact h.ping time
  | pong k recvTime =>
      obtain ⟨hk, hle⟩ := hrecent
      rw [h.length] at hk hle
      rw [sendTimes, sendTimes, List.append_nil]
      by_cases hgone : Overwritten times.length k ∨ k ∈ s.used
      · rwa [step_of_receive_none (h.receive_absent hk hle hgone recvTime)]
      · obtain ⟨hwritten, hused⟩ := not_or.mp hgone
        exact h.pong_present (List.getElem?_eq_getElem hk) hwritten hused recvTime

/-- Along a run whose pongs are recent. -/
theorem Matched.run (h : Matched s times) {es : List PingEvent}
    (hes : Along PingExchange.step PingExchange.Recent s es) :
    Matched (Machine.run PingExchange.step s es) (times ++ sendTimes es) := by
  induction es generalizing s times with
  | nil => simpa [sendTimes] using h
  | cons e es ih =>
      have hrun := ih (h.step hes.1) hes.2
      rwa [List.append_assoc, ← sendTimes_append] at hrun

theorem follows_step {s : PingExchange} (h : s.rtt.Follows (s.samples.map Prod.snd))
    (e : PingEvent) : (s.step e).rtt.Follows ((s.step e).samples.map Prod.snd) := by
  cases e with
  | ping time =>
      have hstep := h.step (.nextEntry time)
      rwa [RttCalculator.submitted, List.append_nil] at hstep
  | pong k recvTime =>
      have hnone : ∀ r, r = s.rtt →
          r.Follows ((s.samples ++ ((none : Option UInt64).map (k, ·)).toList).map Prod.snd) := by
        rintro r rfl
        simpa using h
      rw [PingExchange.step, PingExchange.receive]
      cases s.pings[k]? with
      | none => exact hnone _ rfl
      | some p =>
          change (recvPongEntry s.rtt p.sequence recvTime).1.Follows
            ((s.samples ++ ((recvPongEntry s.rtt p.sequence recvTime).2.map (k, ·)).toList).map _)
          rw [recvPongEntry]
          cases s.rtt.entry p.sequence with
          | none => exact hnone _ rfl
          | some i =>
              have hstep := h.step (.submitEntry i recvTime 0)
              rw [RttCalculator.submitted] at hstep
              change (s.rtt.submitEntry i recvTime 0).Follows
                ((s.samples ++ ((s.rtt.roundTrip i recvTime 0).map (k, ·)).toList).map _)
              cases hvalue : s.rtt.roundTrip i recvTime 0 <;>
                simpa [hvalue, RttCalculator.step] using hstep

theorem follows_run {s : PingExchange} (h : s.rtt.Follows (s.samples.map Prod.snd))
    (es : List PingEvent) :
    (Machine.run PingExchange.step s es).rtt.Follows
      ((Machine.run PingExchange.step s es).samples.map Prod.snd) := by
  induction es generalizing s with
  | nil => exact h
  | cons e es ih => exact ih (follows_step h e)

end Steps

/-- Every recent pong gives the round trip of its own ping, unless a later ping took the slot or
the ping has its sample: then the pong gives none. No ping has two samples, and the sample set of
the calculator follows them. -/
theorem matched_run (es : List PingEvent)
    (hes : Along PingExchange.step PingExchange.Recent .start es) :
    (PingExchange.after es).used.Nodup ∧
      (PingExchange.after es).rtt.Follows ((PingExchange.after es).samples.map Prod.snd) ∧
      ∀ before k recvTime later, es = before ++ .pong k recvTime :: later →
        ∃ time, (sendTimes before)[k]? = some time ∧
          ((PingExchange.after before).receive k recvTime).2 =
            if Overwritten (sendTimes before).length k ∨ k ∈ (PingExchange.after before).used then
              none
            else some (recvTime - time) := by
  have hmatched := matched_start.run hes
  refine ⟨hmatched.nodup, follows_run RttCalculator.follows_init es, ?_⟩
  rintro before k recvTime later rfl
  obtain ⟨hbefore, hafter⟩ := (along_append _ _ _ _ _).mp hes
  have h := matched_start.run hbefore
  rw [List.nil_append] at h
  obtain ⟨hk, hle⟩ : k < _ ∧ _ := hafter.1
  rw [h.length] at hk hle
  refine ⟨_, List.getElem?_eq_getElem hk, ?_⟩
  split
  next hgone => exact congrArg Prod.snd (h.receive_absent hk hle hgone recvTime)
  next hpresent =>
    obtain ⟨hwritten, hused⟩ := not_or.mp hpresent
    exact congrArg Prod.snd
      (h.receive_present (List.getElem?_eq_getElem hk) hwritten hused recvTime)

/-- Twenty-one pings: the first is overwritten, the sixth is answered twice. -/
theorem matched_run_twentyOne :
    (PingExchange.after ((List.range 21).map (fun n => .ping (UInt64.ofNat (100 * n))) ++
      [.pong 0 5000, .pong 5 5010, .pong 5 5020])).samples = [(5, 4510)] ∧
    (PingExchange.after ((List.range 21).map (fun n => .ping (UInt64.ofNat (100 * n))) ++
      [.pong 0 5000, .pong 5 5010, .pong 5 5020])).used.Nodup :=
  ⟨by decide +kernel, (matched_run _ (by decide +kernel)).1⟩

end Delivery

end PomeloUdp
