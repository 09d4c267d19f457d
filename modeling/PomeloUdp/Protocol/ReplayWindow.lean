import PomeloUdp.Protocol.Peer
import Mathlib.Data.List.Induction

/-!
# The replay window

Each of the 256 slots remembers the largest number that passed there, and `2^64 - 1`
stands for a slot where none has. That number is a sequence number too: once it has
passed its slot looks free, and it passes again, as does the number 256 below it,
which is outside the window. `characterised_iff` says that nothing else goes wrong.
-/

namespace PomeloUdp

namespace Protocol

namespace ReplayProtector

/-- The protector of newly allocated memory. -/
def fresh : ReplayProtector := Peer.zero.onAlloc.replayProtector

/-- The protector after the numbers were presented to it in order, and those that
passed. -/
def presented (history : List UInt64) : ReplayProtector × List UInt64 :=
  history.foldl (fun before sequence =>
    let after := before.1.protectReplay sequence
    (after.1, if after.2 then before.2 ++ [sequence] else before.2)) (fresh, [])

/-- The protector after a history. -/
def after (history : List UInt64) : ReplayProtector := (presented history).1

/-- The numbers of a history that were accepted. -/
def accepted (history : List UInt64) : List UInt64 := (presented history).2

@[simp] theorem after_nil : after [] = fresh := rfl

@[simp] theorem accepted_nil : accepted [] = [] := rfl

theorem after_concat (history : List UInt64) (sequence : UInt64) :
    after (history ++ [sequence]) = ((after history).protectReplay sequence).1 := by
  simp [after, presented]

theorem accepted_concat (history : List UInt64) (sequence : UInt64) :
    accepted (history ++ [sequence]) =
      if ((after history).protectReplay sequence).2 then accepted history ++ [sequence]
      else accepted history := by
  unfold accepted presented
  rw [List.foldl_append]
  rfl

/-- The greatest of the numbers, and zero if there are none. -/
def greatest (numbers : List UInt64) : UInt64 := numbers.foldl max 0

/-- The number that marks a free slot. -/
abbrev sentinel : UInt64 := 0xffffffffffffffff

/-- The number below it that shares its slot. -/
abbrev belowSentinel : UInt64 := 0xfffffffffffffeff

/-- The slot remembers the largest number that passed there. -/
def Remembers (r : ReplayProtector) (passed : List UInt64) (i : Fin 256) : Prop :=
  (r.receivedSequence i = sentinel ∧ ∀ a ∈ passed, slot a ≠ i) ∨
    (r.receivedSequence i ≠ sentinel ∧ slot (r.receivedSequence i) = i ∧
      r.receivedSequence i ∈ passed ∧ ∀ a ∈ passed, slot a = i → a ≤ r.receivedSequence i)

/-- What the last of the presentations of the sentinel and of the number that shares
its slot was. -/
def lastAtSentinel (history : List UInt64) : Option UInt64 :=
  (history.filter fun a => a = sentinel ∨ a = belowSentinel).getLast?

/-- The protector after a history in which the numbers in `passed` were accepted. -/
structure Describes (r : ReplayProtector) (history passed : List UInt64) : Prop where
  mostRecent : r.mostRecentSequence = greatest passed
  subset : ∀ a ∈ passed, a ∈ history
  slots : ∀ i, i ≠ slot sentinel ∨ sentinel ∉ history → r.Remembers passed i
  last : sentinel ∈ history → r.mostRecentSequence = sentinel ∧ sentinel ∈ passed ∧
    r.receivedSequence (slot sentinel) =
      if lastAtSentinel history = some sentinel then sentinel else belowSentinel

theorem slot_eq_iff {a b : UInt64} : slot a = slot b ↔ a.toNat % 256 = b.toNat % 256 := by
  simp [slot, Fin.ext_iff]

theorem describes_fresh : Describes fresh [] [] where
  mostRecent := rfl
  subset := by simp
  slots i _ := Or.inl ⟨rfl, by simp⟩
  last h := by cases h

theorem toNat_max (a b : UInt64) : (max a b).toNat = max a.toNat b.toNat := by
  have h : max a b = if a ≤ b then b else a := rfl
  rw [h]
  split
  · rename_i hle
    rw [UInt64.le_iff_toNat_le] at hle
    omega
  · rename_i hle
    rw [UInt64.le_iff_toNat_le] at hle
    omega

theorem greatest_concat (numbers : List UInt64) (a : UInt64) :
    greatest (numbers ++ [a]) = max (greatest numbers) a := by
  simp [greatest]

theorem le_greatest {numbers : List UInt64} {a : UInt64} (h : a ∈ numbers) :
    a.toNat ≤ (greatest numbers).toNat := by
  induction numbers using List.reverseRecOn with
  | nil => cases h
  | append_singleton numbers b ih =>
      rw [greatest_concat, toNat_max]
      rcases List.mem_append.mp h with h | h
      · have := ih h
        omega
      · rw [List.mem_singleton.mp h]
        omega

theorem greatest_mem (numbers : List UInt64) :
    greatest numbers = 0 ∨ greatest numbers ∈ numbers := by
  induction numbers using List.reverseRecOn with
  | nil => exact Or.inl rfl
  | append_singleton numbers b ih =>
      rw [greatest_concat]
      have h : max (greatest numbers) b = if greatest numbers ≤ b then b else greatest numbers :=
        rfl
      rw [h]
      split
      · exact Or.inr (List.mem_append_right _ (List.mem_singleton_self b))
      · exact ih.imp_right (List.mem_append_left _)

theorem accepts_iff (r : ReplayProtector) (s : UInt64) :
    (r.protectReplay s).2 = true ↔ r.tooOld s = false ∧ r.slotFree s = true := by
  unfold protectReplay
  cases hold : r.tooOld s <;> cases hfree : r.slotFree s <;> simp

theorem protectReplay_of_accepts {r : ReplayProtector} {s : UInt64}
    (h : (r.protectReplay s).2 = true) :
    (r.protectReplay s).1 = ⟨Function.update r.receivedSequence (slot s) s,
      max r.mostRecentSequence s⟩ := by
  obtain ⟨hold, hfree⟩ := (accepts_iff r s).mp h
  simp only [protectReplay, hold, hfree, Bool.false_eq_true, if_false, if_true,
    ReplayProtector.mk.injEq, true_and]
  rw [← UInt64.toNat_inj, toNat_max]
  split
  · rename_i hlt
    rw [UInt64.lt_iff_toNat_lt] at hlt
    omega
  · rename_i hlt
    rw [UInt64.lt_iff_toNat_lt] at hlt
    omega

theorem protectReplay_of_not_accepts {r : ReplayProtector} {s : UInt64}
    (h : ¬ (r.protectReplay s).2 = true) : (r.protectReplay s).1 = r := by
  rw [accepts_iff] at h
  unfold protectReplay
  cases hold : r.tooOld s <;> cases hfree : r.slotFree s <;> simp_all

theorem accepts_sentinel (r : ReplayProtector) : (r.protectReplay sentinel).2 = true := by
  rw [accepts_iff]
  refine ⟨?_, ?_⟩
  · rw [Bool.eq_false_iff, ne_eq, tooOld_iff]
    have hlt := r.mostRecentSequence.toNat_lt
    have htop : sentinel.toNat = 18446744073709551615 := rfl
    omega
  · simp only [slotFree, Bool.or_eq_true, decide_eq_true_eq]
    by_cases heq : r.receivedSequence (slot sentinel) = sentinel
    · exact Or.inl heq
    · refine Or.inr (UInt64.lt_of_le_of_ne ?_ heq)
      have hlt := (r.receivedSequence (slot sentinel)).toNat_lt
      have htop : sentinel.toNat = 18446744073709551615 := rfl
      rw [UInt64.le_iff_toNat_le]
      omega

theorem eq_of_slot_sentinel {s : UInt64} (hslot : slot s = slot sentinel)
    (hold : ¬ s.toNat + 256 < sentinel.toNat) : s = sentinel ∨ s = belowSentinel := by
  rw [slot_eq_iff] at hslot
  have htop : sentinel.toNat = 18446744073709551615 := rfl
  have hbelow : belowSentinel.toNat = 18446744073709551359 := rfl
  have hlt := s.toNat_lt
  rw [htop] at hslot hold
  have hcases : s.toNat = sentinel.toNat ∨ s.toNat = belowSentinel.toNat := by omega
  simpa only [UInt64.toNat_inj] using hcases

namespace Remembers

variable {r r' : ReplayProtector} {passed : List UInt64} {s : UInt64} {i : Fin 256}

theorem of_ne (h : r.Remembers passed i) (hne : slot s ≠ i)
    (hr' : r'.receivedSequence i = r.receivedSequence i) :
    r'.Remembers (passed ++ [s]) i := by
  unfold Remembers
  rw [hr']
  rcases h with ⟨hfree, hnone⟩ | ⟨hfull, hslot, hmem, hgreatest⟩
  · refine Or.inl ⟨hfree, fun a ha => ?_⟩
    rcases List.mem_append.mp ha with ha | ha
    · exact hnone a ha
    · rwa [List.mem_singleton.mp ha]
  · refine Or.inr ⟨hfull, hslot, List.mem_append_left _ hmem, fun a ha hai => ?_⟩
    rcases List.mem_append.mp ha with ha | ha
    · exact hgreatest a ha hai
    · rw [List.mem_singleton.mp ha] at hai
      exact absurd hai hne

theorem of_free (h : r.Remembers passed (slot s)) (hfree : r.slotFree s = true)
    (hs : s ≠ sentinel) (hr' : r'.receivedSequence (slot s) = s) :
    r'.Remembers (passed ++ [s]) (slot s) := by
  unfold Remembers
  rw [hr']
  refine Or.inr ⟨hs, rfl, List.mem_append_right _ (List.mem_singleton_self s), fun a ha hslot => ?_⟩
  rcases List.mem_append.mp ha with ha | ha
  · rcases h with ⟨-, hnone⟩ | ⟨hfull, -, -, hgreatest⟩
    · exact absurd hslot (hnone a ha)
    · simp only [slotFree, Bool.or_eq_true, decide_eq_true_eq] at hfree
      exact UInt64.le_trans (hgreatest a ha hslot)
        (UInt64.le_of_lt (hfree.resolve_left hfull))
  · rw [List.mem_singleton.mp ha]
    exact UInt64.le_refl s

theorem slotFree_iff (h : r.Remembers passed (slot s)) :
    r.slotFree s = true ↔ ∀ a ∈ passed, slot a = slot s → a < s := by
  simp only [slotFree, Bool.or_eq_true, decide_eq_true_eq]
  rcases h with ⟨hfree, hnone⟩ | ⟨hfull, hslot, hmem, hgreatest⟩
  · exact iff_of_true (Or.inl hfree) fun a ha hslot => absurd hslot (hnone a ha)
  · constructor
    · rintro (hfree | hlt) a ha hai
      · exact absurd hfree hfull
      · exact UInt64.lt_of_le_of_lt (hgreatest a ha hai) hlt
    · exact fun hall => Or.inr (hall _ hmem hslot)

end Remembers

theorem lastAtSentinel_concat_of_ne {history : List UInt64} {s : UInt64} (hs : s ≠ sentinel)
    (hbelow : s ≠ belowSentinel) :
    lastAtSentinel (history ++ [s]) = lastAtSentinel history := by
  simp [lastAtSentinel, List.filter_append, hs, hbelow]

theorem lastAtSentinel_concat {history : List UInt64} {s : UInt64}
    (hs : s = sentinel ∨ s = belowSentinel) : lastAtSentinel (history ++ [s]) = some s := by
  simp [lastAtSentinel, List.filter_append, hs]

theorem remembers_step {r : ReplayProtector} {passed : List UInt64} {s : UInt64} {i : Fin 256}
    (h : r.Remembers passed i) (haccepts : (r.protectReplay s).2 = true)
    (hs : slot s = i → s ≠ sentinel) :
    (r.protectReplay s).1.Remembers (passed ++ [s]) i := by
  have hr' := protectReplay_of_accepts haccepts
  by_cases hslot : slot s = i
  · subst hslot
    refine h.of_free ((accepts_iff r s).mp haccepts).2 (hs rfl) ?_
    simp only [hr', Function.update_self]
  · refine h.of_ne hslot ?_
    simp only [hr', Function.update_of_ne (Ne.symm hslot)]

namespace Describes

variable {r : ReplayProtector} {history passed : List UInt64} {s : UInt64}

theorem le_mostRecent (h : r.Describes history passed) {a : UInt64} (ha : a ∈ passed) :
    a.toNat ≤ r.mostRecentSequence.toNat := by
  rw [h.mostRecent]
  exact le_greatest ha

theorem concat_sentinel (h : r.Describes history passed) :
    (r.protectReplay sentinel).1.Describes (history ++ [sentinel]) (passed ++ [sentinel]) := by
  have haccepts := accepts_sentinel r
  have hr' := protectReplay_of_accepts haccepts
  refine ⟨?_, ?_, ?_, fun _ => ⟨?_, ?_, ?_⟩⟩
  · rw [hr', greatest_concat, h.mostRecent]
  · intro a ha
    exact (List.mem_append.mp ha).elim (fun ha => List.mem_append_left _ (h.subset a ha))
      (fun ha => List.mem_append_right _ ha)
  · intro i hi
    have hne := hi.resolve_right (by simp)
    exact remembers_step (h.slots i (Or.inl hne)) haccepts fun heq => absurd heq.symm hne
  · rw [hr', ← UInt64.toNat_inj, toNat_max]
    have hlt := r.mostRecentSequence.toNat_lt
    have htop : sentinel.toNat = 18446744073709551615 := rfl
    omega
  · exact List.mem_append_right _ (List.mem_singleton_self _)
  · simp only [hr', Function.update_self, lastAtSentinel_concat (Or.inl rfl), if_true]

theorem concat_accepted (h : r.Describes history passed) (hs : s ≠ sentinel)
    (haccepts : (r.protectReplay s).2 = true) :
    (r.protectReplay s).1.Describes (history ++ [s]) (passed ++ [s]) := by
  have hr' := protectReplay_of_accepts haccepts
  have hhistory : sentinel ∈ history ++ [s] ↔ sentinel ∈ history := by
    simp [Ne.symm hs]
  refine ⟨?_, ?_, ?_, fun hmem => ?_⟩
  · rw [hr', greatest_concat, h.mostRecent]
  · intro a ha
    exact (List.mem_append.mp ha).elim (fun ha => List.mem_append_left _ (h.subset a ha))
      (fun ha => List.mem_append_right _ ha)
  · intro i hi
    rw [hhistory] at hi
    exact remembers_step (h.slots i hi) haccepts fun _ => hs
  · obtain ⟨hmost, hpassed, hslot⟩ := h.last (hhistory.mp hmem)
    refine ⟨?_, List.mem_append_left _ hpassed, ?_⟩
    · rw [hr', hmost, ← UInt64.toNat_inj, toNat_max]
      have hlt := s.toNat_lt
      have htop : sentinel.toNat = 18446744073709551615 := rfl
      omega
    · rw [hr']
      by_cases heq : slot s = slot sentinel
      · -- only the number 256 below the sentinel is left for its slot
        have hold := ((accepts_iff r s).mp haccepts).1
        rw [Bool.eq_false_iff, ne_eq, tooOld_iff, hmost] at hold
        have hbelow := (eq_of_slot_sentinel heq hold).resolve_left hs
        simp only [← heq, Function.update_self]
        rw [lastAtSentinel_concat (Or.inr hbelow), hbelow]
        rfl
      · have hbelow : s ≠ belowSentinel := by
          rintro rfl
          exact heq (by decide)
        simp only [Function.update_of_ne (Ne.symm heq), hslot,
          lastAtSentinel_concat_of_ne hs hbelow]

theorem concat_rejected (h : r.Describes history passed)
    (hrejects : ¬ (r.protectReplay s).2 = true) :
    (r.protectReplay s).1.Describes (history ++ [s]) passed := by
  rw [protectReplay_of_not_accepts hrejects]
  have hs : s ≠ sentinel := by
    rintro rfl
    exact hrejects (accepts_sentinel r)
  have hhistory : sentinel ∈ history ++ [s] ↔ sentinel ∈ history := by
    simp [Ne.symm hs]
  refine ⟨h.mostRecent, fun a ha => List.mem_append_left _ (h.subset a ha), ?_, fun hmem => ?_⟩
  · intro i hi
    rw [hhistory] at hi
    exact h.slots i hi
  · obtain ⟨hmost, hpassed, hslot⟩ := h.last (hhistory.mp hmem)
    refine ⟨hmost, hpassed, ?_⟩
    by_cases hbelow : s = belowSentinel
    · -- it was turned away because its slot holds it
      rw [lastAtSentinel_concat (Or.inr hbelow), hbelow, if_neg (by decide)]
      rw [hslot]
      refine if_neg fun hlast => hrejects ?_
      rw [accepts_iff]
      refine ⟨?_, ?_⟩
      · rw [Bool.eq_false_iff, ne_eq, tooOld_iff, hmost, hbelow]
        decide
      · have heq : slot s = slot sentinel := by
          rw [hbelow]
          decide
        simp [slotFree, heq, hslot, hlast]
    · rw [hslot, lastAtSentinel_concat_of_ne hs hbelow]

end Describes

theorem describes_after (history : List UInt64) :
    (after history).Describes history (accepted history) := by
  induction history using List.reverseRecOn with
  | nil => exact describes_fresh
  | append_singleton history s ih =>
      rw [after_concat, accepted_concat]
      split
      · rename_i haccepts
        by_cases hs : s = sentinel
        · subst hs
          exact ih.concat_sentinel
        · exact ih.concat_accepted hs haccepts
      · rename_i hrejects
        exact ih.concat_rejected hrejects

/-- The specification of the window at a number presented after a history: it is
accepted if it was not accepted before and is in the window, and the number of the
most recent one is the greatest that was accepted. -/
def Characterised (history : List UInt64) (s : UInt64) : Prop :=
  (((after history).protectReplay s).2 = true ↔
    s ∉ accepted history ∧ ((after history).mostRecentSequence ≤ s ∨
      (after history).mostRecentSequence - s < bufferSize)) ∧
  (after history).mostRecentSequence = greatest (accepted history)

theorem window_iff (m s : UInt64) :
    m ≤ s ∨ m - s < bufferSize ↔ m.toNat < s.toNat + 256 := by
  have hsize : bufferSize.toNat = 256 := rfl
  by_cases hle : m ≤ s
  · rw [UInt64.le_iff_toNat_le] at hle
    exact iff_of_true (Or.inl (UInt64.le_iff_toNat_le.mpr hle)) (by omega)
  · have hlt : s.toNat < m.toNat := by
      rw [UInt64.le_iff_toNat_le] at hle
      omega
    simp only [hle, false_or]
    rw [UInt64.lt_iff_toNat_lt, UInt64.toNat_sub_of_le _ _ (UInt64.le_iff_toNat_le.mpr hlt.le),
      hsize]
    omega

theorem Describes.accepts_iff {r : ReplayProtector} {history passed : List UInt64} {s : UInt64}
    (h : r.Describes history passed) (hremembers : r.Remembers passed (slot s)) :
    (r.protectReplay s).2 = true ↔
      s ∉ passed ∧ (r.mostRecentSequence ≤ s ∨ r.mostRecentSequence - s < bufferSize) := by
  rw [ReplayProtector.accepts_iff, Bool.eq_false_iff, ne_eq, tooOld_iff, window_iff,
    hremembers.slotFree_iff]
  constructor
  · rintro ⟨hold, hfree⟩
    refine ⟨fun hmem => UInt64.lt_irrefl s (hfree s hmem rfl), ?_⟩
    by_contra hwindow
    -- at a distance of 256 the most recent number passed in the same slot
    have hdistance : r.mostRecentSequence.toNat = s.toNat + 256 := by omega
    have hmem : r.mostRecentSequence ∈ passed := by
      rw [h.mostRecent] at hdistance ⊢
      refine (greatest_mem passed).resolve_left fun hzero => ?_
      rw [hzero] at hdistance
      simp at hdistance
    have hlt := hfree _ hmem (by rw [slot_eq_iff]; omega)
    rw [UInt64.lt_iff_toNat_lt] at hlt
    omega
  · rintro ⟨hmem, hwindow⟩
    refine ⟨by omega, fun a ha hslot => ?_⟩
    have hle := h.le_mostRecent ha
    have hne : a.toNat ≠ s.toNat := by
      intro heq
      exact hmem (UInt64.toNat_inj.mp heq ▸ ha)
    rw [slot_eq_iff] at hslot
    rw [UInt64.lt_iff_toNat_lt]
    omega

theorem Describes.not_in_window {r : ReplayProtector} {history passed : List UInt64}
    {s : UInt64} (h : r.Describes history passed) (hslot : slot s = slot sentinel)
    (hs : s ≠ sentinel) (hmem : sentinel ∈ history) :
    ¬ (s ∉ passed ∧ (r.mostRecentSequence ≤ s ∨ r.mostRecentSequence - s < bufferSize)) := by
  rintro ⟨-, hwindow⟩
  rw [window_iff, (h.last hmem).1] at hwindow
  have htop : sentinel.toNat = 18446744073709551615 := rfl
  have hlt := s.toNat_lt
  have hne : s.toNat ≠ sentinel.toNat := fun heq => hs (UInt64.toNat_inj.mp heq)
  rw [slot_eq_iff] at hslot
  omega

theorem Describes.accepts_below {r : ReplayProtector} {history passed : List UInt64}
    {s : UInt64} (h : r.Describes history passed) (hslot : slot s = slot sentinel)
    (hs : s ≠ sentinel) (hmem : sentinel ∈ history) :
    (r.protectReplay s).2 = true ↔
      s = belowSentinel ∧ lastAtSentinel history = some sentinel := by
  obtain ⟨hrecent, -, hlast⟩ := h.last hmem
  rw [ReplayProtector.accepts_iff, Bool.eq_false_iff, ne_eq, tooOld_iff, hrecent]
  by_cases hbelow : s = belowSentinel
  · subst hbelow
    rw [slotFree, hslot, hlast]
    by_cases hsentinel : lastAtSentinel history = some sentinel
    · rw [if_pos hsentinel]
      exact iff_of_true ⟨by decide, by decide⟩ ⟨rfl, hsentinel⟩
    · rw [if_neg hsentinel]
      exact iff_of_false (fun hfree => absurd hfree.2 (by decide)) fun hboth => hsentinel hboth.2
  · exact iff_of_false (fun hfree => (eq_of_slot_sentinel hslot hfree.1).elim hs hbelow)
      fun hboth => hbelow hboth.1

/-- The protector meets its specification except at the sentinel, when that was
presented before, and at the number that shares its slot, when the sentinel was
presented later than that. -/
theorem characterised_iff (history : List UInt64) (s : UInt64) :
    Characterised history s ↔ (s = sentinel → sentinel ∉ history) ∧
      (s = belowSentinel → lastAtSentinel history ≠ some sentinel) := by
  have h := describes_after history
  have hmost : Characterised history s ↔ (((after history).protectReplay s).2 = true ↔
      s ∉ accepted history ∧ ((after history).mostRecentSequence ≤ s ∨
        (after history).mostRecentSequence - s < bufferSize)) := and_iff_left h.mostRecent
  rw [hmost]
  by_cases hslot : slot s = slot sentinel ∧ sentinel ∈ history
  · obtain ⟨heq, hmem⟩ := hslot
    obtain ⟨hrecent, hpassed, hlast⟩ := h.last hmem
    by_cases hs : s = sentinel
    · subst hs
      simp [accepts_sentinel, hpassed, hmem]
    · rw [iff_false_right (h.not_in_window heq hs hmem), h.accepts_below heq hs hmem]
      simp [hs]
  · have hremembers : (after history).Remembers (accepted history) (slot s) := by
      refine h.slots _ ?_
      by_cases heq : slot s = slot sentinel
      · exact Or.inr fun hmem => hslot ⟨heq, hmem⟩
      · exact Or.inl heq
    refine iff_of_true (h.accepts_iff hremembers) ⟨?_, ?_⟩
    · rintro rfl hmem
      exact hslot ⟨rfl, hmem⟩
    · rintro rfl hlast
      have hmem : sentinel ∈ history := by
        have := List.mem_of_getLast? hlast
        simp at this
        exact this
      exact hslot ⟨by decide, hmem⟩

/-- The sentinel is accepted a second time. -/
theorem not_characterised : ¬ ∀ history s, Characterised history s := by
  intro h
  have := (h [sentinel] sentinel).1
  revert this
  decide +kernel

end ReplayProtector

end Protocol

end PomeloUdp
