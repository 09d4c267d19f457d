import Mathlib.Data.List.Basic
import Mathlib.Data.List.Nodup
import Mathlib.Tactic.TypeStar

/-!
# Queues of deferred tasks

A sequencer runs its tasks one after another, in the order of their submission.
`submit` puts a task at the tail; a task that is already waiting is moved there.
`Ahead a b q` says that `a` waits before every occurrence of `b`. Submitting
another task and running the head keep it, so an order in which two tasks are
submitted is the order in which they run.
-/

namespace Sequencer

variable {τ : Type*}

section Submit

variable [DecidableEq τ]

/-- The queue after `task` is submitted: it waits once, at the tail. -/
def submit (queue : List τ) (task : τ) : List τ := queue.erase task ++ [task]

theorem submit_of_notMem {queue : List τ} {task : τ} (h : task ∉ queue) :
    submit queue task = queue ++ [task] := by
  rw [submit, List.erase_of_not_mem h]

@[simp] theorem submit_ne_nil (queue : List τ) (task : τ) : submit queue task ≠ [] := by
  simp [submit]

/-- Submitting adds the task and loses no other. -/
@[simp] theorem mem_submit {queue : List τ} {task t : τ} :
    t ∈ submit queue task ↔ t = task ∨ t ∈ queue := by
  by_cases heq : t = task
  · simp [submit, heq]
  · simp [submit, heq, List.mem_erase_of_ne heq]

theorem nodup_submit {queue : List τ} (h : queue.Nodup) (task : τ) :
    (submit queue task).Nodup := by
  rw [submit, List.nodup_append]
  refine ⟨h.erase task, List.nodup_singleton task, ?_⟩
  intro a ha b hb hab
  have hbt : b = task := by simpa using hb
  rw [hab, hbt] at ha
  exact h.not_mem_erase ha

/-- Submitting another task puts nothing new ahead of a task that waits. -/
theorem idxOf_submit_le {queue : List τ} {task t : τ} (h : t ∈ queue) (hne : task ≠ t) :
    (submit queue task).idxOf t ≤ queue.idxOf t := by
  have hmem : t ∈ queue.erase task := (List.mem_erase_of_ne hne.symm).mpr h
  rw [submit, List.idxOf_append_of_mem hmem]
  by_cases htask : task ∈ queue
  · obtain ⟨before, after, hbefore, hqueue, herase⟩ := List.exists_erase_eq htask
    rw [herase, hqueue]
    by_cases hin : t ∈ before
    · exact Nat.le_of_eq (by rw [List.idxOf_append_of_mem hin, List.idxOf_append_of_mem hin])
    · rw [List.idxOf_append_of_notMem hin, List.idxOf_append_of_notMem hin,
        List.idxOf_cons_ne _ hne]
      exact Nat.add_le_add_left (Nat.le_succ _) _
  · exact Nat.le_of_eq (by rw [List.erase_of_not_mem htask])

end Submit

section Ahead

/-- Every `b` of the queue waits behind an `a`. -/
def Ahead (a b : τ) (queue : List τ) : Prop :=
  ∀ before after, queue = before ++ b :: after → a ∈ before

/-- Running a head that is neither of the two keeps their order. -/
theorem Ahead.tail {a b head : τ} {queue : List τ} (h : Ahead a b (head :: queue))
    (hne : head ≠ a) : Ahead a b queue := by
  intro before after hq
  have hmem := h (head :: before) after (by rw [hq]; rfl)
  rcases List.mem_cons.mp hmem with heq | hmem
  · exact absurd heq.symm hne
  · exact hmem

/-- The head of the queue has nothing ahead of it. -/
theorem Ahead.head_ne {a b head : τ} {queue : List τ} (h : Ahead a b (head :: queue)) :
    head ≠ b := by
  intro heq
  have := h [] queue (by rw [heq]; rfl)
  simp at this

/-- Appending a task other than `b` keeps what is ahead of `b`. -/
theorem Ahead.append {a b task : τ} {queue : List τ} (h : Ahead a b queue) (hne : task ≠ b) :
    Ahead a b (queue ++ [task]) := by
  intro before after hq
  rcases List.eq_nil_or_concat after with hnil | ⟨after', last, hafter⟩
  · rw [hnil] at hq
    have hlast := List.append_inj_right' hq rfl
    exact absurd (by simpa using hlast) hne
  · rw [hafter, List.concat_eq_append, ← List.cons_append, ← List.append_assoc] at hq
    exact h before after' (List.append_inj_left' hq rfl)

variable [DecidableEq τ]

/-- Removing a task other than `a` keeps what is ahead of `b`. -/
theorem Ahead.erase {a b task : τ} {queue : List τ} (h : Ahead a b queue) (hne : task ≠ a) :
    Ahead a b (queue.erase task) := by
  intro before after hq
  by_cases hmem : task ∈ queue
  · obtain ⟨left, right, hleft, hqueue, herase⟩ := List.exists_erase_eq hmem
    rw [herase] at hq
    rcases List.append_eq_append_iff.mp hq with ⟨mid, hbefore, hright⟩ | ⟨mid, hleft', hright⟩
    · have hmem := h (left ++ task :: mid) after (by rw [hqueue, hright]; simp)
      rw [hbefore]
      simp only [List.mem_append, List.mem_cons] at hmem ⊢
      rcases hmem with hmem | heq | hmem
      · exact Or.inl hmem
      · exact absurd heq.symm hne
      · exact Or.inr hmem
    · rcases List.cons_eq_append_iff.mp hright with ⟨hmid, hright'⟩ | ⟨mid', hmid, hafter⟩
      · have hmem := h (left ++ [task]) after (by rw [hqueue, hright']; simp)
        rw [hleft', hmid, List.append_nil] at hmem
        simp only [List.mem_append, List.mem_singleton] at hmem
        rcases hmem with hmem | heq
        · exact hmem
        · exact absurd heq.symm hne
      · exact h before (mid' ++ task :: right) (by rw [hqueue, hleft', hmid]; simp)
  · rw [List.erase_of_not_mem hmem] at hq
    exact h before after hq

/-- Submitting a task that is neither of the two keeps their order. -/
theorem Ahead.submit {a b task : τ} {queue : List τ} (h : Ahead a b queue)
    (ha : task ≠ a) (hb : task ≠ b) : Ahead a b (submit queue task) :=
  (h.erase ha).append hb

/-- A task submitted last waits behind every other task of the queue. -/
theorem ahead_submit {a b : τ} {queue : List τ} (ha : a ∈ queue) (hb : b ∉ queue) :
    Ahead a b (submit queue b) := by
  intro before after hq
  rw [submit_of_notMem hb] at hq
  rcases List.eq_nil_or_concat after with hnil | ⟨after', last, hafter⟩
  · rw [hnil] at hq
    rw [← List.append_inj_left' hq rfl]
    exact ha
  · rw [hafter, List.concat_eq_append, ← List.cons_append, ← List.append_assoc] at hq
    have hbmem : b ∈ queue := by
      rw [List.append_inj_left' hq rfl]
      simp
    exact absurd hbmem hb

end Ahead

end Sequencer
