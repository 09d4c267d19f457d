import PomeloUdp.Api.CoherenceInit

/-!
# The callbacks made for each session

The application tells sessions apart by their signatures, and a signature is
given once. `Logged` says what was called for each of them: nothing before the
session is ready, then `connected` and the parcels received, and in the end
`disconnected`.
-/

namespace PomeloUdp

namespace Api

open Protocol

namespace Stack

/-- The callbacks of a session that has been told that it is connected. -/
def opening (n : ℕ) : List Callback := .connected :: List.replicate n .received

/-- All callbacks of a session. -/
def transcript (n : ℕ) : List Callback := opening n ++ [.disconnected]

theorem opening_append (n : ℕ) : opening n ++ [.received] = opening (n + 1) := by
  simp [opening, List.replicate_succ']

/-- What has been called for live sessions, for others, and whether the assertion
on receiving held. -/
structure Logged (st : Stack) : Prop where
  signature_le : ∀ s, (st.sessions s).signature ≤ st.signatureGenerator
  signature_inj : ∀ s s', (st.sessions s).signature ≠ 0 →
    (st.sessions s).signature = (st.sessions s').signature → s = s'
  silent : ∀ s, (st.sessions s).signature ≠ 0 → (st.sessions s).ready = false →
    st.callbacksOf (st.sessions s).signature = []
  opened : ∀ s, (st.sessions s).signature ≠ 0 → (st.sessions s).ready = true →
    ∃ n, st.callbacksOf (st.sessions s).signature = opening n
  closed : ∀ signature, (∀ s, (st.sessions s).signature ≠ 0 →
      (st.sessions s).signature ≠ signature) →
    st.callbacksOf signature = [] ∨ ∃ n, st.callbacksOf signature = transcript n
  fresh : ∀ signature, st.signatureGenerator < signature → st.callbacksOf signature = []
  asserted : st.assertFailed = false

variable {st st' : Stack} {s : SessionId}

theorem callbacksOf_congr (h : st'.callbacks = st.callbacks) (signature : ℕ) :
    st'.callbacksOf signature = st.callbacksOf signature := by
  unfold Stack.callbacksOf
  rw [h]

theorem callbacksOf_callback (st : Stack) (s : SessionId) (c : Callback) (signature : ℕ) :
    (st.callback s c).callbacksOf signature =
      if (st.sessions s).signature = signature then st.callbacksOf signature ++ [c]
      else st.callbacksOf signature := by
  unfold Stack.callbacksOf Stack.callback
  by_cases heq : (st.sessions s).signature = signature
  · simp [heq]
  · simp [heq]

theorem Logged.congr (h : Logged st)
    (hsignature : ∀ s, (st'.sessions s).signature = (st.sessions s).signature)
    (hready : ∀ s, (st'.sessions s).ready = (st.sessions s).ready)
    (hgenerator : st'.signatureGenerator = st.signatureGenerator)
    (hcallbacks : st'.callbacks = st.callbacks) (hassert : st'.assertFailed = st.assertFailed) :
    Logged st' where
  signature_le s := by
    rw [hsignature, hgenerator]
    exact h.signature_le s
  signature_inj s s' := by
    rw [hsignature, hsignature]
    exact h.signature_inj s s'
  silent s := by
    rw [hsignature, hready, callbacksOf_congr hcallbacks]
    exact h.silent s
  opened s := by
    rw [hsignature, hready, callbacksOf_congr hcallbacks]
    exact h.opened s
  closed signature hnone := by
    rw [callbacksOf_congr hcallbacks]
    exact h.closed signature fun s hs => by
      rw [← hsignature] at hs ⊢
      exact hnone s hs
  fresh signature := by
    rw [hgenerator, callbacksOf_congr hcallbacks]
    exact h.fresh signature
  asserted := hassert.trans h.asserted

theorem Logged.quiet (h : Logged st) (hquiet : Still st st') : Logged st' :=
  h.congr (fun s => by rw [hquiet.sessions]) (fun s => by rw [hquiet.sessions])
    hquiet.signatureGenerator hquiet.callbacks hquiet.assertFailed

theorem Logged.callbacksOf_other (h : Logged st) (hlive : (st.sessions s).signature ≠ 0)
    (c : Callback) {s' : SessionId} (hne : s' ≠ s) :
    (st.callback s c).callbacksOf (st.sessions s').signature =
      st.callbacksOf (st.sessions s').signature := by
  rw [callbacksOf_callback, if_neg fun heq => hne (h.signature_inj s s' hlive heq).symm]

theorem Logged.connected (h : Logged st) (hlive : (st.sessions s).signature ≠ 0)
    (hready : (st.sessions s).ready = false) {session : Session}
    (hsignature : session.signature = (st.sessions s).signature) (hsession : session.ready = true) :
    Logged ((st.setSession s session).callback s .connected) := by
  have hsignatures : ∀ s', ((st.setSession s session).sessions s').signature =
      (st.sessions s').signature := setSession_field _ hsignature
  have hcallbacks : ∀ signature, ((st.setSession s session).callback s .connected).callbacksOf
      signature = if (st.sessions s).signature = signature then
        st.callbacksOf signature ++ [.connected] else st.callbacksOf signature := by
    intro signature
    rw [callbacksOf_callback, hsignatures]
    rfl
  have hother : ∀ s', s' ≠ s → (st.sessions s).signature ≠ (st.sessions s').signature :=
    fun s' hne heq => hne (h.signature_inj s s' hlive heq).symm
  constructor
  · intro s'
    exact (hsignatures s').trans_le (h.signature_le s')
  · intro s₁ s₂ hlive₁ heq
    exact h.signature_inj s₁ s₂ (by rwa [← hsignatures]) (by rwa [← hsignatures, ← hsignatures s₂])
  · intro s' hlive' hready'
    change ((st.setSession s session).sessions s').signature ≠ 0 at hlive'
    change ((st.setSession s session).sessions s').ready = false at hready'
    change Stack.callbacksOf _ ((st.setSession s session).sessions s').signature = []
    rw [setSession_sessions] at hready'
    rw [hsignatures] at hlive' ⊢
    split at hready'
    · rw [hsession] at hready'
      cases hready'
    next hne =>
      rw [hcallbacks, if_neg (hother s' hne)]
      exact h.silent s' hlive' hready'
  · intro s' hlive' hready'
    change ((st.setSession s session).sessions s').signature ≠ 0 at hlive'
    change ((st.setSession s session).sessions s').ready = true at hready'
    change ∃ n, Stack.callbacksOf _ ((st.setSession s session).sessions s').signature = _
    rw [setSession_sessions] at hready'
    rw [hsignatures] at hlive' ⊢
    split at hready'
    next heq =>
      subst heq
      rw [hcallbacks, if_pos rfl, h.silent _ hlive hready]
      exact ⟨0, rfl⟩
    next hne =>
      rw [hcallbacks, if_neg (hother s' hne)]
      exact h.opened s' hlive' hready'
  · intro signature hnone
    change ∀ s', ((st.setSession s session).sessions s').signature ≠ 0 →
      ((st.setSession s session).sessions s').signature ≠ signature at hnone
    have hnone' : ∀ s', (st.sessions s').signature ≠ 0 → (st.sessions s').signature ≠ signature :=
      fun s' hs' => by
        rw [← hsignatures] at hs' ⊢
        exact hnone s' hs'
    rw [hcallbacks, if_neg (hnone' s hlive)]
    exact h.closed signature hnone'
  · intro signature hlt
    have hlt : st.signatureGenerator < signature := hlt
    rw [hcallbacks, if_neg ((h.signature_le s).trans_lt hlt).ne]
    exact h.fresh signature hlt
  · exact h.asserted

theorem Logged.received (h : Logged st) (hlive : (st.sessions s).signature ≠ 0)
    (hready : (st.sessions s).ready = true) : Logged (st.callback s .received) where
  signature_le := h.signature_le
  signature_inj := h.signature_inj
  silent s' hlive' hready' := by
    have hne : s' ≠ s := by
      intro heq
      have hready'' : (st.sessions s').ready = false := hready'
      rw [heq, hready] at hready''
      cases hready''
    exact (h.callbacksOf_other hlive _ hne).trans (h.silent s' hlive' hready')
  opened s' hlive' hready' := by
    by_cases heq : s' = s
    · rw [heq]
      obtain ⟨n, hn⟩ := h.opened s hlive hready
      refine ⟨n + 1, ?_⟩
      change (st.callback s .received).callbacksOf (st.sessions s).signature = _
      rw [callbacksOf_callback, if_pos rfl, hn, opening_append]
    · obtain ⟨n, hn⟩ := h.opened s' hlive' hready'
      exact ⟨n, (h.callbacksOf_other hlive _ heq).trans hn⟩
  closed signature hnone := by
    have hne : (st.sessions s).signature ≠ signature := hnone s hlive
    rw [callbacksOf_callback, if_neg hne]
    exact h.closed signature hnone
  fresh signature hlt := by
    rw [callbacksOf_callback, if_neg ((h.signature_le s).trans_lt hlt).ne]
    exact h.fresh signature hlt
  asserted := h.asserted

/-- A session is released, and the application told if it knows the session. -/
theorem Logged.close (h : Logged st) (hlive : (st.sessions s).signature ≠ 0)
    (hsessions : ∀ s', s' ≠ s → st'.sessions s' = st.sessions s')
    (hsession : (st'.sessions s).signature = 0)
    (hgenerator : st'.signatureGenerator = st.signatureGenerator)
    (hcallbacks : st'.callbacks =
      if (st.sessions s).ready then (st.callback s .disconnected).callbacks else st.callbacks)
    (hassert : st'.assertFailed = st.assertFailed) : Logged st' := by
  have hothers : ∀ signature, (st.sessions s).signature ≠ signature →
      st'.callbacksOf signature = st.callbacksOf signature := by
    intro signature hne
    cases hready : (st.sessions s).ready with
    | false =>
        rw [hready] at hcallbacks
        exact callbacksOf_congr hcallbacks signature
    | true =>
        rw [hready, if_pos rfl] at hcallbacks
        rw [callbacksOf_congr hcallbacks, callbacksOf_callback, if_neg hne]
  have hne_of_live : ∀ s', (st'.sessions s').signature ≠ 0 → s' ≠ s :=
    fun s' hs' heq => hs' (heq ▸ hsession)
  have hsignature_ne : ∀ s', s' ≠ s → (st.sessions s).signature ≠ (st.sessions s').signature :=
    fun s' hne heq => hne (h.signature_inj s s' hlive heq).symm
  constructor
  · intro s'
    rw [hgenerator]
    by_cases heq : s' = s
    · rw [heq, hsession]
      exact Nat.zero_le _
    · rw [hsessions s' heq]
      exact h.signature_le s'
  · intro s₁ s₂ hlive₁ heq
    have hne₁ := hne_of_live s₁ hlive₁
    have hne₂ := hne_of_live s₂ (heq ▸ hlive₁)
    rw [hsessions s₁ hne₁] at hlive₁ heq
    rw [hsessions s₂ hne₂] at heq
    exact h.signature_inj s₁ s₂ hlive₁ heq
  · intro s' hlive' hready'
    have hne := hne_of_live s' hlive'
    rw [hsessions s' hne] at hlive' hready' ⊢
    rw [hothers _ (hsignature_ne s' hne)]
    exact h.silent s' hlive' hready'
  · intro s' hlive' hready'
    have hne := hne_of_live s' hlive'
    rw [hsessions s' hne] at hlive' hready' ⊢
    rw [hothers _ (hsignature_ne s' hne)]
    exact h.opened s' hlive' hready'
  · intro signature hnone
    by_cases heq : (st.sessions s).signature = signature
    · subst heq
      cases hready : (st.sessions s).ready with
      | false =>
          rw [hready] at hcallbacks
          left
          rw [callbacksOf_congr hcallbacks]
          exact h.silent s hlive hready
      | true =>
          rw [hready, if_pos rfl] at hcallbacks
          obtain ⟨n, hn⟩ := h.opened s hlive hready
          right
          refine ⟨n, ?_⟩
          rw [callbacksOf_congr hcallbacks, callbacksOf_callback, if_pos rfl, hn]
          rfl
    · rw [hothers signature heq]
      refine h.closed signature fun s' hs' => ?_
      by_cases heq' : s' = s
      · rw [heq']
        exact heq
      · have := hnone s'
        rw [hsessions s' heq'] at this
        exact this hs'
  · intro signature hlt
    rw [hgenerator] at hlt
    rw [hothers signature ((h.signature_le s).trans_lt hlt).ne]
    exact h.fresh signature hlt
  · exact hassert.trans h.asserted

/-- A new session has a new signature, and nothing was called for it. -/
theorem Logged.sessionInit (h : Logged st) {p : PeerId} {slots : SessionSlots}
    (hslots : slots.Free st) : Logged (st.sessionInit p slots) := by
  have hold : ∀ s, s ≠ slots.session → (st.sessionInit p slots).sessions s = st.sessions s :=
    fun s hne => by rw [sessionInit_sessions, if_neg hne]
  have hnew : (st.sessionInit p slots).sessions slots.session = st.newSession p slots := by
    rw [sessionInit_sessions, if_pos rfl]
  have hgenerator : (st.sessionInit p slots).signatureGenerator = st.signatureGenerator + 1 := by
    rw [sessionInit_eq]
  have hcallbacks : ∀ signature, (st.sessionInit p slots).callbacksOf signature =
      st.callbacksOf signature := callbacksOf_congr (by rw [sessionInit_eq])
  constructor
  · intro s
    rw [hgenerator]
    by_cases heq : s = slots.session
    · rw [heq, hnew]
      exact Nat.le_refl _
    · rw [hold s heq]
      exact (h.signature_le s).trans (Nat.le_succ _)
  · intro s₁ s₂ hlive heq
    by_cases heq₁ : s₁ = slots.session
    · by_cases heq₂ : s₂ = slots.session
      · rw [heq₁, heq₂]
      · rw [heq₁, hnew, hold s₂ heq₂] at heq
        have hle := h.signature_le s₂
        rw [← heq] at hle
        exact absurd hle (Nat.not_succ_le_self _)
    · rw [hold s₁ heq₁] at hlive heq
      by_cases heq₂ : s₂ = slots.session
      · rw [heq₂, hnew] at heq
        have hle := h.signature_le s₁
        rw [heq] at hle
        exact absurd hle (Nat.not_succ_le_self _)
      · rw [hold s₂ heq₂] at heq
        exact h.signature_inj s₁ s₂ hlive heq
  · intro s hlive hready
    rw [hcallbacks]
    by_cases heq : s = slots.session
    · rw [heq, hnew]
      exact h.fresh _ (Nat.lt_succ_self _)
    · rw [hold s heq] at hlive hready ⊢
      exact h.silent s hlive hready
  · intro s hlive hready
    rw [hcallbacks]
    by_cases heq : s = slots.session
    · rw [heq, hnew] at hready
      cases hready
    · rw [hold s heq] at hlive hready ⊢
      exact h.opened s hlive hready
  · intro signature hnone
    rw [hcallbacks]
    refine h.closed signature fun s hs => ?_
    by_cases heq : s = slots.session
    · rw [heq, hslots.session] at hs
      exact absurd rfl hs
    · have := hnone s
      rw [hold s heq] at this
      exact this hs
  · intro signature hlt
    rw [hgenerator] at hlt
    rw [hcallbacks]
    exact h.fresh signature ((Nat.lt_succ_self _).trans hlt)
  · rw [sessionInit_eq]
    exact h.asserted

end Stack

end Api

end PomeloUdp
