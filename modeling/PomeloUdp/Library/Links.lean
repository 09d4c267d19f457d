import Mathlib.Data.List.Nodup
import Mathlib.Logic.Function.Basic
import Mathlib.Logic.Function.Iterate
import Mathlib.Tactic.TypeStar

/-!
# Intrusive doubly linked lists

The links of an intrusive list are two functions, `next` and `prev`. `Segment next prev p q n`
says that the elements of `q` are linked in this order between `p` and `n`, and
`Linked next prev head tail q` that `head` and `tail` are the ends of a list of
distinct elements. Removing an element, appending one and removing the first are
`Linked.erase`, `Linked.append` and `Linked.pop`, each with the writes of the usual
code for it. A list can be read from its other end (`Linked.reverse`), which gives the same
for the ends exchanged, and following the links leads through it (`Linked.iterate_next`).
-/

namespace Links

variable {τ : Type*}

/-- The elements of `q` are linked, from behind `p` to before `n`. -/
def Segment (next prev : τ → Option τ) : Option τ → List τ → Option τ → Prop
  | _, [], _ => True
  | p, t :: q, n => prev t = p ∧ next t = q.head?.or n ∧ Segment next prev (some t) q n

section Segments

variable {next prev next' prev' : τ → Option τ} {p n : Option τ}

/-- Only the links of its elements count for a segment. -/
theorem Segment.congr {q : List τ} (h : Segment next prev p q n)
    (hnext : ∀ t ∈ q, next' t = next t) (hprev : ∀ t ∈ q, prev' t = prev t) :
    Segment next' prev' p q n := by
  induction q generalizing p with
  | nil => trivial
  | cons t q ih =>
      obtain ⟨hp, hn, hq⟩ := h
      refine ⟨(hprev t (by simp)).trans hp, (hnext t (by simp)).trans hn, ih hq ?_ ?_⟩
      · exact fun u hu => hnext u (List.mem_cons_of_mem t hu)
      · exact fun u hu => hprev u (List.mem_cons_of_mem t hu)

/-- A segment splits where a list does. -/
theorem segment_append (q r : List τ) :
    Segment next prev p (q ++ r) n ↔
      Segment next prev p q (r.head?.or n) ∧ Segment next prev (q.getLast?.or p) r n := by
  induction q generalizing p with
  | nil => simp [Segment]
  | cons t q ih =>
      have hhead : (q ++ r).head?.or n = q.head?.or (r.head?.or n) := by
        cases q <;> rfl
      have hlast : (q.getLast?.or (some t)) = (t :: q).getLast?.or p := by
        cases q with
        | nil => rfl
        | cons u q => simp [List.getLast?_cons]
      simp only [List.cons_append, Segment, ih, hhead, hlast, and_assoc]

theorem segment_concat (q : List τ) (t : τ) :
    Segment next prev p (q ++ [t]) n ↔
      Segment next prev p q (some t) ∧ prev t = q.getLast?.or p ∧ next t = n := by
  rw [segment_append]
  simp [Segment]

/-- A segment read from its end. -/
theorem Segment.reverse {q : List τ} (h : Segment next prev p q n) :
    Segment prev next n q.reverse p := by
  induction q generalizing p with
  | nil => trivial
  | cons t q ih =>
      obtain ⟨hp, hn, hq⟩ := h
      rw [List.reverse_cons, segment_concat, List.getLast?_reverse]
      exact ⟨ih hq, hn, hp⟩

/-- A segment from the links of each of its elements. -/
theorem segment_of_getElem? {q : List τ} (hfirst : ∀ t, q.head? = some t → prev t = p)
    (hprev : ∀ i t, q[i + 1]? = some t → prev t = q[i]?)
    (hnext : ∀ i t, q[i]? = some t → next t = q[i + 1]?.or n) : Segment next prev p q n := by
  induction q generalizing p with
  | nil => trivial
  | cons t q ih =>
      refine ⟨hfirst t rfl, ?_, ih ?_ ?_ ?_⟩
      · rw [hnext 0 t rfl, List.getElem?_cons_succ, List.head?_eq_getElem?]
      · intro u hu
        rw [List.head?_eq_getElem?] at hu
        exact hprev 0 u hu
      · exact fun i u hu => hprev (i + 1) u hu
      · exact fun i u hu => hnext (i + 1) u hu

variable [DecidableEq τ]

/-- The first element of a segment gets another one before it. -/
theorem Segment.setPrev {t : τ} {q : List τ} (h : Segment next prev p (t :: q) n) (ht : t ∉ q)
    (p' : Option τ) : Segment next (Function.update prev t p') p' (t :: q) n := by
  obtain ⟨-, hn, hq⟩ := h
  refine ⟨Function.update_self t p' prev, hn, hq.congr (fun _ _ => rfl) fun u hu => ?_⟩
  exact Function.update_of_ne (ne_of_mem_of_not_mem hu ht) p' prev

/-- The last element of a segment gets another one behind it. -/
theorem Segment.setNext {t : τ} {q : List τ} (h : Segment next prev p (q ++ [t]) n) (ht : t ∉ q)
    (n' : Option τ) : Segment (Function.update next t n') prev p (q ++ [t]) n' := by
  rw [segment_concat] at h ⊢
  obtain ⟨hq, hp, -⟩ := h
  refine ⟨hq.congr (fun u hu => ?_) fun _ _ => rfl, hp, Function.update_self t n' next⟩
  exact Function.update_of_ne (ne_of_mem_of_not_mem hu ht) n' next

end Segments

/-- `head` and `tail` are the ends of the linked list of the elements of `q`. -/
structure Linked (next prev : τ → Option τ) (head tail : Option τ) (q : List τ) : Prop where
  nodup : q.Nodup
  head_eq : head = q.head?
  tail_eq : tail = q.getLast?
  segment : Segment next prev none q none

section Lists

variable {next prev : τ → Option τ} {head tail : Option τ} {q : List τ}

/-- The links of an element of the list are its neighbours. -/
theorem Linked.neighbours {x : τ} {before after : List τ}
    (h : Linked next prev head tail (before ++ x :: after)) :
    prev x = before.getLast? ∧ next x = after.head? := by
  obtain ⟨-, hp, hn, -⟩ := (segment_append _ _).mp h.segment
  simpa using And.intro hp hn

/-- The list read from its end. -/
theorem Linked.reverse (h : Linked next prev head tail q) :
    Linked prev next tail head q.reverse where
  nodup := List.nodup_reverse.mpr h.nodup
  head_eq := by rw [List.head?_reverse, h.tail_eq]
  tail_eq := by rw [List.getLast?_reverse, h.head_eq]
  segment := h.segment.reverse

/-- Only the links of its elements count for a list. -/
theorem Linked.congr {next' prev' : τ → Option τ} (h : Linked next prev head tail q)
    (hnext : ∀ t ∈ q, next' t = next t) (hprev : ∀ t ∈ q, prev' t = prev t) :
    Linked next' prev' head tail q :=
  { h with segment := h.segment.congr hnext hprev }

/-- The element behind the `k`-th one. -/
theorem Linked.next_getElem {k : ℕ} {x : τ} (h : Linked next prev head tail q)
    (hx : q[k]? = some x) : next x = q[k + 1]? := by
  obtain ⟨hk, hget⟩ := List.getElem?_eq_some_iff.mp hx
  have hsplit : q = q.take k ++ x :: q.drop (k + 1) := by
    rw [← hget, List.getElem_cons_drop, List.take_append_drop]
  rw [hsplit] at h
  rw [h.neighbours.2, List.head?_drop]

/-- Following the links from the head. -/
theorem Linked.iterate_next (h : Linked next prev head tail q) (k : ℕ) :
    (fun t => t.bind next)^[k] head = q[k]? := by
  induction k with
  | zero =>
      rw [Function.iterate_zero, id, h.head_eq]
      cases q <;> rfl
  | succ k ih =>
      rw [Function.iterate_succ_apply', ih]
      cases hk : q[k]? with
      | none =>
          rw [List.getElem?_eq_none_iff] at hk
          exact (List.getElem?_eq_none_iff.mpr (Nat.le_succ_of_le hk)).symm
      | some x => exact h.next_getElem hk

/-- Following the links from the tail. -/
theorem Linked.iterate_prev (h : Linked next prev head tail q) (k : ℕ) :
    (fun t => t.bind prev)^[k] tail = q.reverse[k]? :=
  h.reverse.iterate_next k

/-- No element precedes itself. -/
theorem Linked.prev_ne {x : τ} (h : Linked next prev head tail q) (hx : x ∈ q) :
    prev x ≠ some x := by
  obtain ⟨before, after, rfl⟩ := List.append_of_mem hx
  intro hprev
  rw [h.neighbours.1] at hprev
  exact (List.nodup_append.mp h.nodup).2.2 x (List.mem_of_getLast? hprev) x (by simp) rfl

variable [DecidableEq τ]

/-- The links of what is not in the list do not count. -/
theorem Linked.setNext {x : τ} (h : Linked next prev head tail q) (hx : x ∉ q) (n : Option τ) :
    Linked (Function.update next x n) prev head tail q :=
  h.congr (fun _ ht => Function.update_of_ne (ne_of_mem_of_not_mem ht hx) _ _) fun _ _ => rfl

theorem Linked.setPrev {x : τ} (h : Linked next prev head tail q) (hx : x ∉ q) (p : Option τ) :
    Linked next (Function.update prev x p) head tail q :=
  h.congr (fun _ _ => rfl) fun _ ht => Function.update_of_ne (ne_of_mem_of_not_mem ht hx) _ _

/-- Linking the last element of the first part and the first of the second to each
other, where there are such. -/
theorem segment_join {x : τ} {before after : List τ}
    (h : Segment next prev none (before ++ x :: after) none)
    (hnodup : (before ++ x :: after).Nodup) :
    Segment (match before.getLast? with
        | some p => Function.update next p after.head?
        | none => next)
      (match after.head? with
        | some n => Function.update prev n before.getLast?
        | none => prev) none (before ++ after) none := by
  obtain ⟨hbefore, -, -, hafter⟩ := (segment_append _ _).mp h
  obtain ⟨hnodupBefore, hnodupAfter, hdisjoint⟩ := List.nodup_append.mp hnodup
  obtain ⟨-, hnodupAfter⟩ := List.nodup_cons.mp hnodupAfter
  have happart : ∀ t ∈ before, ∀ u ∈ after, t ≠ u :=
    fun t ht u hu => hdisjoint t ht u (List.mem_cons_of_mem x hu)
  rw [segment_append]
  constructor
  · -- the first part, whose last element points behind the gap
    rcases List.eq_nil_or_concat before with rfl | ⟨init, p, rfl⟩
    · trivial
    · rw [List.concat_eq_append] at *
      have hp : p ∉ init := fun hp =>
        (List.nodup_append.mp hnodupBefore).2.2 p hp p (by simp) rfl
      simp only [List.getLast?_append, List.getLast?_singleton, Option.some_or]
      rw [Option.or_none] at hbefore ⊢
      refine (hbefore.setNext hp _).congr (fun _ _ => rfl) fun t ht => ?_
      cases after with
      | nil => rfl
      | cons n after =>
          exact Function.update_of_ne (happart t ht n (by simp)) _ _
  · -- the second part, whose first element points before the gap
    cases after with
    | nil => trivial
    | cons n after =>
        have hn := (List.nodup_cons.mp hnodupAfter).1
        have hset := hafter.setPrev hn (before.getLast?.or none)
        refine hset.congr (fun t ht => ?_) fun t _ => by simp
        cases hlast : before.getLast? with
        | none => rfl
        | some p =>
            refine Function.update_of_ne (fun heq => ?_) _ _
            exact happart p (List.mem_of_getLast? hlast) t ht heq.symm

/-- Unlinking an element, in the writes of the usual code. -/
theorem Linked.erase {x : τ} (h : Linked next prev head tail q) (hx : x ∈ q) :
    Linked (match prev x with
        | some p => Function.update next p (next x)
        | none => next)
      (match next x with
        | some n => Function.update prev n (prev x)
        | none => prev)
      (match prev x with
        | some _ => head
        | none => next x)
      (match next x with
        | some _ => tail
        | none => prev x) (q.erase x) := by
  obtain ⟨before, after, hbefore, rfl, herase⟩ := List.exists_erase_eq hx
  obtain ⟨hprev, hnext⟩ := h.neighbours
  rw [herase, hprev, hnext]
  refine ⟨?_, ?_, ?_, segment_join h.segment h.nodup⟩
  · exact herase ▸ h.nodup.erase x
  · rw [h.head_eq]
    cases before with
    | nil => rfl
    | cons t before => simp [List.getLast?_cons]
  · rw [h.tail_eq]
    cases after with
    | nil => simp
    | cons t after => simp [List.getLast?_append]

/-- Appending an element. -/
theorem Linked.append {x : τ} (h : Linked next prev head tail q) (hx : x ∉ q) :
    Linked (Function.update (tail.elim next fun last => Function.update next last (some x)) x none)
      (Function.update prev x tail) (head.or (some x)) (some x) (q ++ [x]) := by
  obtain ⟨hnodup, rfl, rfl, hsegment⟩ := h
  refine ⟨?_, ?_, by simp, ?_⟩
  · rw [List.nodup_append]
    refine ⟨hnodup, List.nodup_singleton x, ?_⟩
    rintro t ht u hu rfl
    exact hx ((List.mem_singleton.mp hu) ▸ ht)
  · cases q <;> rfl
  · rw [segment_concat]
    refine ⟨?_, by simp, Function.update_self _ _ _⟩
    rcases List.eq_nil_or_concat q with rfl | ⟨init, last, rfl⟩
    · trivial
    · rw [List.concat_eq_append] at *
      have hlast : last ∉ init := fun hlast =>
        (List.nodup_append.mp hnodup).2.2 last hlast last (by simp) rfl
      simp only [List.getLast?_append, List.getLast?_singleton, Option.some_or]
      refine (hsegment.setNext hlast (some x)).congr (fun t ht => ?_) fun t ht => ?_
      · exact Function.update_of_ne (ne_of_mem_of_not_mem ht hx) _ _
      · exact Function.update_of_ne (ne_of_mem_of_not_mem ht hx) _ _

/-- Removing the first element. -/
theorem Linked.pop {x : τ} (h : Linked next prev head tail (x :: q)) :
    Linked next (match next x with
        | some n => Function.update prev n none
        | none => prev)
      (next x)
      (match next x with
        | some _ => tail
        | none => none) q := by
  obtain ⟨hnodup, -, rfl, -, hnext, hsegment⟩ := h
  rw [Option.or_none] at hnext
  rw [hnext]
  obtain ⟨-, hnodup⟩ := List.nodup_cons.mp hnodup
  cases q with
  | nil => exact ⟨hnodup, rfl, rfl, trivial⟩
  | cons n q =>
      refine ⟨hnodup, rfl, by simp, ?_⟩
      exact hsegment.setPrev (List.nodup_cons.mp hnodup).1 none

/-- Putting an element before the first. -/
theorem Linked.prepend {x : τ} (h : Linked next prev head tail q) (hx : x ∉ q) :
    Linked (Function.update next x head)
      (Function.update (head.elim prev fun first => Function.update prev first (some x)) x none)
      (some x) (tail.or (some x)) (x :: q) := by
  have := (h.reverse.append (by rwa [List.mem_reverse])).reverse
  rwa [List.reverse_append, List.reverse_reverse, List.reverse_singleton, List.singleton_append]
    at this

/-- Putting a block before the first element: the links inside the block, the one from its last
element to the first of the list and the one back. -/
theorem Linked.prependBlock {next' prev' : τ → Option τ} {block : List τ}
    (h : Linked next prev head tail q) (hnodup : block.Nodup) (hdisjoint : List.Disjoint block q)
    (hfirst : ∀ t, block.head? = some t → prev' t = none)
    (hprev : ∀ i t, block[i + 1]? = some t → prev' t = block[i]?)
    (hnext : ∀ i t, block[i]? = some t → next' t = block[i + 1]?.or head)
    (hkeptNext : ∀ t ∈ q, next' t = next t)
    (hkeptPrev : ∀ t ∈ q, prev' t = if head = some t then block.getLast? else prev t) :
    Linked next' prev' (block.head?.or head) (tail.or block.getLast?) (block ++ q) := by
  obtain ⟨hnodupList, rfl, rfl, hsegment⟩ := h
  refine ⟨?_, ?_, ?_, ?_⟩
  · exact List.nodup_append.mpr ⟨hnodup, hnodupList, fun t ht u hu heq =>
      hdisjoint ht (heq ▸ hu)⟩
  · rw [List.head?_append]
  · rw [List.getLast?_append]
  rw [segment_append]
  refine ⟨segment_of_getElem? hfirst hprev ?_, ?_⟩
  · rw [Option.or_none]
    exact hnext
  · rw [Option.or_none]
    cases q with
    | nil => trivial
    | cons t q =>
        obtain ⟨-, hn, hq⟩ := hsegment
        refine ⟨?_, (hkeptNext t List.mem_cons_self).trans hn, hq.congr ?_ ?_⟩
        · rw [hkeptPrev t List.mem_cons_self, List.head?_cons, if_pos rfl]
        · exact fun u hu => hkeptNext u (List.mem_cons_of_mem t hu)
        · intro u hu
          rw [hkeptPrev u (List.mem_cons_of_mem t hu), List.head?_cons, if_neg]
          rintro ⟨⟩
          exact (List.nodup_cons.mp hnodupList).1 hu

/-- Removing the last element. -/
theorem Linked.popBack {x : τ} (h : Linked next prev head tail (q ++ [x])) :
    Linked (match prev x with
        | some p => Function.update next p none
        | none => next) prev
      (match prev x with
        | some _ => head
        | none => none)
      (prev x) q := by
  have hreverse := h.reverse
  rw [List.reverse_append, List.reverse_singleton, List.singleton_append] at hreverse
  have := hreverse.pop.reverse
  rwa [List.reverse_reverse] at this

end Lists

end Links
