import Mathlib.Data.List.Range
import Mathlib.Data.List.Perm.Lattice
import Mathlib.Data.List.Nodup
import Mathlib.Tactic.TypeStar

/-!
# Requests that are settled once

Requests are numbered in the order in which they are made. Each is pending until it is settled.
`Balanced pending settled next` says that `next` requests were made and that each of them is
pending once or settled once, but not both. Making a request and settling a pending one keep it.
-/

namespace Ledger

/-- An entry of a list whose numbers differ, and the other entries. -/
theorem perm_cons_filter {α : Type*} {number : α → ℕ} {l : List α} {a : α}
    (hl : (l.map number).Nodup) (ha : a ∈ l) :
    l.Perm (a :: l.filter fun b => number b ≠ number a) := by
  induction l with
  | nil => cases ha
  | cons b l ih =>
      rw [List.map_cons, List.nodup_cons] at hl
      rcases List.mem_cons.mp ha with rfl | hmem
      · have hall : (l.filter fun b => number b ≠ number a) = l :=
          List.filter_eq_self.mpr fun b hb => decide_eq_true fun heq =>
            hl.1 (heq ▸ List.mem_map_of_mem hb)
        rw [List.filter_cons_of_neg (by simp), hall]
      · have hne : number b ≠ number a := fun heq => hl.1 (heq ▸ List.mem_map_of_mem hmem)
        rw [List.filter_cons_of_pos (by simpa using hne)]
        exact ((ih hl.2 hmem).cons b).trans (List.Perm.swap a b _)

/-- The numbers below `next` are those of `pending` and `settled`, each once. -/
def Balanced (pending settled : List ℕ) (next : ℕ) : Prop :=
  (pending ++ settled).Perm (List.range next)

namespace Balanced

variable {pending settled : List ℕ} {next i : ℕ}

theorem nil : Balanced [] [] 0 := List.Perm.refl _

/-- A new request. -/
theorem issue (h : Balanced pending settled next) :
    Balanced (pending ++ [next]) settled (next + 1) := by
  rw [Balanced, List.range_succ, List.append_assoc]
  have hcomm : (pending ++ ([next] ++ settled)).Perm ((pending ++ settled) ++ [next]) := by
    rw [List.append_assoc]
    exact List.perm_append_comm.append_left pending
  exact hcomm.trans (h.append_right [next])

/-- A request as the first of the pending ones. -/
theorem issue_cons (h : Balanced pending settled next) :
    Balanced (next :: pending) settled (next + 1) :=
  (List.perm_append_comm.append_right settled).trans h.issue

theorem nodup (h : Balanced pending settled next) : (pending ++ settled).Nodup :=
  (List.Perm.nodup_iff h).mpr List.nodup_range

theorem nodup_pending (h : Balanced pending settled next) : pending.Nodup :=
  h.nodup.of_append_left

theorem not_mem_settled (h : Balanced pending settled next) (hi : i ∈ pending) : i ∉ settled :=
  fun hsettled => List.disjoint_of_nodup_append h.nodup hi hsettled

theorem mem_iff (h : Balanced pending settled next) : i < next ↔ i ∈ pending ∨ i ∈ settled := by
  rw [← List.mem_range, ← List.Perm.mem_iff h, List.mem_append]

/-- Each request is pending once or settled once. -/
theorem count (h : Balanced pending settled next) (hi : i < next) :
    pending.count i + settled.count i = 1 := by
  rw [← List.count_append, List.Perm.count_eq h]
  exact List.count_eq_one_of_mem List.nodup_range (List.mem_range.mpr hi)

theorem lt_of_pending (h : Balanced pending settled next) (hi : i ∈ pending) : i < next :=
  h.mem_iff.mpr (.inl hi)

theorem lt_of_settled (h : Balanced pending settled next) (hi : i ∈ settled) : i < next :=
  h.mem_iff.mpr (.inr hi)

/-- The first of the pending requests is settled. -/
theorem settle_head (h : Balanced (i :: pending) settled next) :
    Balanced pending (settled ++ [i]) next := by
  have hcomm : ((pending ++ settled) ++ [i]).Perm ([i] ++ (pending ++ settled)) :=
    List.perm_append_comm
  rw [Balanced, ← List.append_assoc]
  exact hcomm.trans h

/-- The pending requests in another order. -/
theorem of_perm {pending' : List ℕ} (h : Balanced pending settled next)
    (hperm : pending'.Perm pending) : Balanced pending' settled next :=
  (hperm.append_right settled).trans h

/-- A pending request is settled, where the pending ones are the numbers of a list. -/
theorem settle_map {α : Type*} {number : α → ℕ} {l : List α} {a : α}
    (h : Balanced (l.map number) settled next) (ha : a ∈ l) :
    Balanced ((l.filter fun b => number b ≠ number a).map number) (settled ++ [number a]) next :=
  (h.of_perm ((perm_cons_filter h.nodup_pending ha).map number).symm).settle_head

/-- A pending request is settled. -/
theorem settle (h : Balanced pending settled next) (hi : i ∈ pending) :
    Balanced (pending.filter (· ≠ i)) (settled ++ [i]) next := by
  rw [← List.map_id pending] at h
  simpa using h.settle_map hi

end Balanced

end Ledger
