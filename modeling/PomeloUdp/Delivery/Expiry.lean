import PomeloUdp.Delivery.BusInvariant

/-!
# Receivers that expire

`pomelo_delivery_bus_cleanup_expired_receivers` runs before a receiver is looked up. It takes the
receivers whose time is over off the heap and cancels them, and leaves the others as they are.
Reliable receivers are not on the heap: they never expire.
-/

namespace PomeloUdp

namespace Delivery

/-- The receiver has expired: it is on the heap and its time is over. -/
def BusReceiver.Expired (r : BusReceiver) (now : UInt64) : Prop :=
  r.expiredEntry = true ∧ ¬now < r.expiredTime

instance (r : BusReceiver) (now : UInt64) : Decidable (r.Expired now) :=
  inferInstanceAs (Decidable (_ ∧ _))

namespace Bus

variable {s s' : Bus} {env : BusEnv} {id : ℕ} {r : BusReceiver} {now : UInt64}

/-- What `pomelo_delivery_bus_cleanup_expired_receivers` leaves. -/
structure Cleaned (now : UInt64) (s s' : Bus) : Prop where
  queued : s'.queued = s.queued
  heap : ∀ id ∈ s'.receiversHeap, now < s'.expiredTime id
  receiver : ∀ id, s'.receivers id = s.receivers id ∨
    ∃ r, s.receivers id = some r ∧ r.Expired now ∧
      s'.receivers id = if r.checksumVerifyTask then some r.detach else none

theorem cleaned_cleanupLoop (env : BusEnv) (fuel : ℕ) (h : Stored s)
    (hfuel : s.receiversHeap.length ≤ fuel) : Cleaned env.now s (cleanupLoop env fuel s) := by
  induction fuel generalizing s with
  | zero =>
      refine ⟨rfl, fun j hj => ?_, fun _ => .inl rfl⟩
      change j ∈ s.receiversHeap at hj
      rw [List.length_eq_zero_iff.mp (Nat.le_zero.mp hfuel)] at hj
      cases hj
  | succ fuel ih =>
      unfold cleanupLoop
      cases htop : s.heapTop with
      | none =>
          refine ⟨rfl, fun j hj => ?_, fun _ => .inl rfl⟩
          rw [List.argmin_eq_none.mp htop] at hj
          cases hj
      | some id =>
          dsimp only
          split
          · rename_i hlater
            refine ⟨rfl, fun j hj => ?_, fun _ => .inl rfl⟩
            have hle := List.le_of_mem_argmin hj htop
            rw [UInt64.lt_iff_toNat_lt] at hlater ⊢
            exact Nat.lt_of_lt_of_le hlater hle
          · rename_i hover
            have hmem := List.argmin_mem htop
            obtain ⟨r, hr, -, hexpired⟩ := h.expiring id hmem
            have hplaced := h.receiver id r hr
            have hcanceled := hplaced.not_canceled hexpired
            have hbus := (hplaced.attached hcanceled).1
            rw [expire_eq hr hexpired hcanceled hbus]
            have hstored : Stored (s.receiverCancel env id) := h.receiverCancel hr hcanceled
            have heq := @receiverCancel_eq s env id r hr hcanceled hbus
            have hshorter : (s.receiverCancel env id).receiversHeap.length ≤ fuel := by
              rw [heq, if_pos hexpired, List.length_erase_of_mem hmem]
              omega
            obtain ⟨hqueued, hheap, hcases⟩ := ih hstored hshorter
            refine ⟨hqueued.trans (by rw [heq]), hheap, fun j => ?_⟩
            have hj := hcases j
            rw [heq] at hj
            dsimp only at hj
            by_cases hid : j = id
            · -- the receiver at the top has left the heap for good
              rw [hid] at hj ⊢
              rw [Function.update_self] at hj
              refine .inr ⟨r, hr, ⟨hexpired, ?_⟩, ?_⟩
              · simpa [expiredTime, hr] using hover
              · rcases hj with hsame | ⟨r', hr', hgone, -⟩
                · rw [← heq] at hsame
                  exact hsame
                · split at hr'
                  · rw [← Option.some.inj hr'] at hgone
                    cases hgone.1
                  · cases hr'
            · rw [Function.update_of_ne hid] at hj
              rw [← heq] at hj
              exact hj

theorem Stored.cleaned (h : Stored s) (env : BusEnv) :
    Cleaned env.now s (s.cleanupExpiredReceivers env) ∧ Stored (s.cleanupExpiredReceivers env) ∧
      Kept s (s.cleanupExpiredReceivers env) := by
  obtain ⟨hmoves, hkept⟩ := moves_cleanupLoop True env s.receiversHeap.length h
  exact ⟨cleaned_cleanupLoop env _ h le_rfl, hmoves.stored h, hkept⟩

theorem Cleaned.receivers_eq (h : Cleaned now s s') (hs : Stored s) (hr : s.receivers id = some r)
    (htype : r.type = .reliable) : s'.receivers id = some r := by
  rcases h.receiver id with hsame | ⟨k, hk, hexpired, -⟩
  · exact hsame.trans hr
  · obtain rfl : r = k := Option.some.inj (hr.symm.trans hk)
    obtain ⟨k, hk, hother, -⟩ := hs.expiring id ((hs.receiver id r hr).heaped hexpired.1)
    obtain rfl : r = k := Option.some.inj (hr.symm.trans hk)
    exact absurd htype hother

end Bus

end Delivery

end PomeloUdp
