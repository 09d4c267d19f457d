import PomeloUdp.Library.Sequencer
import Mathlib.Data.List.Count
import Mathlib.Data.List.Range
import Mathlib.Tactic.Common

/-!
# Histories of a sequencer

What a sequencer did is a list of events. `queueOf` is the queue that a history leaves:
`mem_queueOf` says that it holds the tasks that were submitted and have not started
since, and `pairwise_queueOf` that it holds them in the order of their last
submissions. In an `Ordered` history tasks start from the head of that queue.
-/

namespace Sequencer

variable {τ : Type*}

/-- A task is submitted, or its callback begins or ends. -/
inductive Event (τ : Type*) where
  | submitted (task : τ)
  | started (task : τ)
  | finished (task : τ)
  deriving DecidableEq

/-- The task was submitted and has not started since. -/
def Waiting (log : List (Event τ)) (t : τ) : Prop :=
  ∃ before after, log = before ++ .submitted t :: after ∧ .started t ∉ after

/-- The last submission of `t` is earlier than the last one of `u`. -/
def SubmittedBefore (log : List (Event τ)) (t u : τ) : Prop :=
  ∃ before after, log = before ++ .submitted t :: after ∧ .submitted t ∉ after ∧
    .submitted u ∈ after

section Histories

variable {log : List (Event τ)} {t u : τ}

/-- One more event. -/
theorem waiting_concat (log : List (Event τ)) (e : Event τ) (t : τ) :
    Waiting (log ++ [e]) t ↔ e = .submitted t ∨ e ≠ .started t ∧ Waiting log t := by
  constructor
  · rintro ⟨before, after, heq, hafter⟩
    rcases List.eq_nil_or_concat after with rfl | ⟨after, last, rfl⟩
    · exact .inl (by simpa using (List.append_inj_right' heq rfl))
    · rw [List.concat_eq_append, ← List.cons_append, ← List.append_assoc] at heq
      have hlast : e = last := by simpa using List.append_inj_right' heq rfl
      rw [List.concat_eq_append, List.mem_append, not_or] at hafter
      refine .inr ⟨fun he => hafter.2 ?_, before, after, List.append_inj_left' heq rfl, hafter.1⟩
      rw [← hlast, he]
      exact List.mem_singleton_self _
  · rintro (rfl | ⟨he, before, after, rfl, hafter⟩)
    · exact ⟨log, [], rfl, by simp⟩
    · refine ⟨before, after ++ [e], by simp, fun hmem => ?_⟩
      rcases List.mem_append.mp hmem with hmem | hmem
      · exact hafter hmem
      · exact he (List.mem_singleton.mp hmem).symm

/-- A submission has a last one. -/
theorem exists_last_submitted (h : .submitted t ∈ log) :
    ∃ before after, log = before ++ .submitted t :: after ∧ .submitted t ∉ after := by
  induction log using List.reverseRecOn with
  | nil => cases h
  | append_singleton log e ih =>
      by_cases he : e = .submitted t
      · exact ⟨log, [], by rw [he], by simp⟩
      · have hold : .submitted t ∈ log := by
          rcases List.mem_append.mp h with hmem | hmem
          · exact hmem
          · exact absurd (List.mem_singleton.mp hmem).symm he
        obtain ⟨before, after, rfl, hafter⟩ := ih hold
        refine ⟨before, after ++ [e], by simp, fun hmem => ?_⟩
        rcases List.mem_append.mp hmem with hmem | hmem
        · exact hafter hmem
        · exact he (List.mem_singleton.mp hmem).symm

/-- A later event that is no submission of the earlier task keeps the order. -/
theorem SubmittedBefore.concat (h : SubmittedBefore log t u) {e : Event τ}
    (he : e ≠ .submitted t) : SubmittedBefore (log ++ [e]) t u := by
  obtain ⟨before, after, rfl, hlast, hlater⟩ := h
  refine ⟨before, after ++ [e], by simp, fun hmem => ?_, List.mem_append_left _ hlater⟩
  rcases List.mem_append.mp hmem with hmem | hmem
  · exact hlast hmem
  · exact he (List.mem_singleton.mp hmem).symm

/-- A task that waits was submitted before the task that is submitted now. -/
theorem Waiting.before_submitted (h : Waiting log t) (hne : t ≠ u) :
    SubmittedBefore (log ++ [.submitted u]) t u := by
  obtain ⟨before, after, hlog, -⟩ := h
  have hmem : .submitted t ∈ log := by simp [hlog]
  obtain ⟨before', after', rfl, hlast⟩ := exists_last_submitted hmem
  refine ⟨before', after' ++ [.submitted u], by simp, fun hmem => ?_, by simp⟩
  rcases List.mem_append.mp hmem with hmem | hmem
  · exact hlast hmem
  · exact hne (Event.submitted.inj (List.mem_singleton.mp hmem))

end Histories

section Queues

variable [DecidableEq τ]

/-- What an event does to the queue. -/
def Event.queue (q : List τ) : Event τ → List τ
  | submitted t => submit q t
  | started t => q.erase t
  | finished _ => q

/-- The queue that a history leaves. -/
def queueOf (log : List (Event τ)) : List τ := log.foldl Event.queue []

@[simp] theorem queueOf_concat (log : List (Event τ)) (e : Event τ) :
    queueOf (log ++ [e]) = e.queue (queueOf log) := by
  simp [queueOf]

theorem nodup_queueOf (log : List (Event τ)) : (queueOf log).Nodup := by
  induction log using List.reverseRecOn with
  | nil => exact List.nodup_nil
  | append_singleton log e ih =>
      rw [queueOf_concat]
      cases e with
      | submitted t => exact nodup_submit ih t
      | started t => exact ih.erase t
      | finished t => exact ih

/-- The queue holds the tasks that wait. -/
theorem mem_queueOf (log : List (Event τ)) (t : τ) : t ∈ queueOf log ↔ Waiting log t := by
  induction log using List.reverseRecOn with
  | nil => simp [queueOf, Waiting]
  | append_singleton log e ih =>
      rw [queueOf_concat, waiting_concat, ← ih]
      cases e with
      | submitted u => simp [Event.queue, eq_comm]
      | started u => simp [Event.queue, (nodup_queueOf log).mem_erase_iff, eq_comm]
      | finished u => simp [Event.queue]

instance decidableWaiting (log : List (Event τ)) (t : τ) : Decidable (Waiting log t) :=
  decidable_of_iff (t ∈ queueOf log) (mem_queueOf log t)

/-- The queue is in the order of the last submissions. -/
theorem pairwise_queueOf (log : List (Event τ)) :
    (queueOf log).Pairwise (SubmittedBefore log) := by
  induction log using List.reverseRecOn with
  | nil => exact List.Pairwise.nil
  | append_singleton log e ih =>
      rw [queueOf_concat]
      cases e with
      | submitted u =>
          refine List.pairwise_append.mpr ⟨?_, List.pairwise_singleton _ _, ?_⟩
          · have herase := ih.sublist (List.erase_sublist (a := u))
            refine herase.imp_of_mem fun {t _} ht _ hbefore => hbefore.concat fun heq => ?_
            obtain rfl := Event.submitted.inj heq
            exact (nodup_queueOf log).not_mem_erase ht
          · intro t ht v hv
            obtain rfl := List.mem_singleton.mp hv
            have ht' := (nodup_queueOf log).mem_erase_iff.mp ht
            exact ((mem_queueOf log t).mp ht'.2).before_submitted ht'.1
      | started u =>
          exact (ih.sublist List.erase_sublist).imp fun hbefore => hbefore.concat (by simp)
      | finished u => exact ih.imp fun hbefore => hbefore.concat (by simp)

/-- Tasks start from the head of the queue. -/
def Ordered (log : List (Event τ)) : Prop :=
  ∀ before t after, log = before ++ .started t :: after → (queueOf before).head? = some t

theorem ordered_nil : Ordered ([] : List (Event τ)) := by
  intro before t after h
  simp at h

theorem Ordered.concat {log : List (Event τ)} {e : Event τ} (h : Ordered log)
    (he : ∀ t, e = .started t → (queueOf log).head? = some t) : Ordered (log ++ [e]) := by
  intro before t after heq
  rcases List.eq_nil_or_concat after with rfl | ⟨after, last, rfl⟩
  · have hlast : e = .started t := by simpa using List.append_inj_right' heq rfl
    rw [← List.append_inj_left' heq rfl]
    exact he t hlast
  · rw [List.concat_eq_append, ← List.cons_append, ← List.append_assoc] at heq
    exact h before t after (List.append_inj_left' heq rfl)

theorem Ordered.of_concat {log : List (Event τ)} {e : Event τ} (h : Ordered (log ++ [e])) :
    Ordered log := by
  intro before t after heq
  exact h before t (after ++ [e]) (by simp [heq])

/-- A task that starts was waiting, and its last submission is the earliest. -/
theorem Ordered.started {log : List (Event τ)} (h : Ordered log) {before : List (Event τ)} {t : τ}
    {after : List (Event τ)} (heq : log = before ++ .started t :: after) :
    Waiting before t ∧ ∀ u, u ≠ t → Waiting before u → SubmittedBefore before t u := by
  obtain ⟨rest, hqueue⟩ := List.head?_eq_some_iff.mp (h before t after heq)
  refine ⟨(mem_queueOf before t).mp (by simp [hqueue]), fun u hne hu => ?_⟩
  have hmem := (mem_queueOf before u).mpr hu
  have hpairwise := pairwise_queueOf before
  rw [hqueue] at hmem hpairwise
  exact (List.pairwise_cons.mp hpairwise).1 u ((List.mem_cons.mp hmem).resolve_left hne)

/-- The maximal runs of submissions of a task while it waits: the submissions at which
it does not wait yet. -/
def runs (log : List (Event τ)) (t : τ) : ℕ :=
  (List.range log.length).countP fun n =>
    decide (log[n]? = some (.submitted t) ∧ ¬ Waiting (log.take n) t)

theorem runs_concat (log : List (Event τ)) (e : Event τ) (t : τ) :
    runs (log ++ [e]) t =
      runs log t + if e = .submitted t ∧ ¬ Waiting log t then 1 else 0 := by
  unfold runs
  rw [List.length_append, List.length_singleton, List.range_succ, List.countP_append,
    List.countP_singleton]
  congr 1
  · refine List.countP_congr fun n hn => ?_
    have hlt : n < log.length := List.mem_range.mp hn
    rw [List.getElem?_append_left hlt, List.take_append_of_le_length (Nat.le_of_lt hlt)]
  · simp

/-- A task starts once for each maximal run, the last one perhaps still to come. -/
theorem Ordered.count_started {log : List (Event τ)} (h : Ordered log) (t : τ) :
    log.count (.started t) + (if Waiting log t then 1 else 0) = runs log t := by
  induction log using List.reverseRecOn with
  | nil => simp [runs, Waiting]
  | append_singleton log e ih =>
      have hold := ih h.of_concat
      rw [List.count_append, List.count_singleton, runs_concat, ← hold]
      cases e with
      | submitted u =>
          by_cases hu : u = t
          · subst hu
            by_cases hwaiting : Waiting log u <;> simp [waiting_concat, hwaiting]
          · simp [waiting_concat, hu]
      | started u =>
          by_cases hu : u = t
          · subst hu
            have hlast : log ++ [.started u] = log ++ .started u :: [] := rfl
            have hwaiting := (h.started hlast).1
            simp [waiting_concat, hwaiting]
          · simp [waiting_concat, hu]
      | finished u => simp [waiting_concat]

end Queues

end Sequencer
