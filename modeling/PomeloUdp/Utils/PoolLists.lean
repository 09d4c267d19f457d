import Mathlib.Data.List.Perm.Subperm
import PomeloUdp.Library.Links

/-!
# The lists of a root pool

A root pool links its elements in two lists, the allocated and the available ones, by two pairs of
fields of the elements. The functions for the two are the same but for the names of the fields, so
`ElementList` is one such list, with the functions that take an array of elements; an element is
the number of its memory block, and `none` is the null pointer.

`Represents l q` says that the links, the head and the size of `l` are those of the sequence `q`.
-/

namespace PomeloUdp

namespace Utils

open Links

/-- A list of the elements of a pool: two fields of the elements, and the head and the size, which
are fields of the pool. -/
structure ElementList where
  next : ℕ → Option ℕ
  prev : ℕ → Option ℕ
  head : Option ℕ
  size : ℕ

namespace ElementList

/-- The list of a new pool. -/
def empty : ElementList := ⟨fun _ => none, fun _ => none, none, 0⟩

section Functions

/-- Writing a field of the element at an index of an array. -/
def writeAt (field : ℕ → Option ℕ) (elements : List ℕ) (i : ℕ) (value : Option ℕ) :
    ℕ → Option ℕ :=
  match elements[i]? with
  | none => field
  | some element => Function.update field element value

/-- `elements[i]->next = next`. -/
def setNext (l : ElementList) (elements : List ℕ) (i : ℕ) (next : Option ℕ) : ElementList :=
  { l with next := writeAt l.next elements i next }

/-- `elements[i]->prev = prev`. -/
def setPrev (l : ElementList) (elements : List ℕ) (i : ℕ) (prev : Option ℕ) : ElementList :=
  { l with prev := writeAt l.prev elements i prev }

/-- The body of the loop that links the elements of an array together. -/
def linkMiddle (elements : List ℕ) (l : ElementList) (i : ℕ) : ElementList :=
  (l.setNext elements i elements[i + 1]?).setPrev elements i elements[i - 1]?

/-- The links between the elements of an array: the loop, and the two ends. -/
def linkTogether (l : ElementList) (elements : List ℕ) : ElementList :=
  let last := elements.length - 1
  let l := (List.range' 1 (last - 1)).foldl (linkMiddle elements) l
  if 1 < elements.length then
    (l.setNext elements 0 elements[1]?).setPrev elements last elements[last - 1]?
  else l

/-- `pomelo_pool_link_allocated` and `pomelo_pool_link_available`. -/
def link (l : ElementList) (elements : List ℕ) : ElementList :=
  if elements.length = 0 then l
  else
    let last := elements.length - 1
    let l := l.linkTogether elements
    let head := l.head
    let l := (l.setNext elements last head).setPrev elements 0 none
    let l := match head with
      | none => l
      | some head => { l with prev := Function.update l.prev head elements[last]? }
    { l with head := elements[0]?, size := l.size + elements.length }

/-- The body of the loop of the functions that unlink. -/
def unlinkElement (l : ElementList) (element : ℕ) : ElementList :=
  let prev := l.prev element
  let next := l.next element
  let l := match prev with
    | none => l
    | some prev => { l with next := Function.update l.next prev next }
  let l := match next with
    | none => l
    | some next => { l with prev := Function.update l.prev next prev }
  if some element = l.head then { l with head := next } else l

/-- `pomelo_pool_unlink_allocated`, and `pomelo_pool_unlink_available`, which returns at once
where there is nothing to unlink. -/
def unlink (l : ElementList) (elements : List ℕ) : ElementList :=
  let l := elements.foldl unlinkElement l
  { l with size := l.size - elements.length }

/-- The loop of `pomelo_pool_acquire_elements`, which collects elements from one on. -/
def collect (next : ℕ → Option ℕ) : ℕ → Option ℕ → List ℕ
  | nelements + 1, some element => element :: collect next nelements (next element)
  | _, _ => []

/-- Setting the memory of new elements to zero. -/
def zero (l : ElementList) (elements : List ℕ) : ElementList :=
  { l with
    next := fun element => if element ∈ elements then none else l.next element
    prev := fun element => if element ∈ elements then none else l.prev element }

end Functions

/-- The list is well formed and its size is its length: `q` are its elements in order. -/
structure Represents (l : ElementList) (q : List ℕ) : Prop where
  linked : Linked l.next l.prev l.head q.getLast? q
  size : l.size = q.length

section Linking

variable {field : ℕ → Option ℕ} {l : ElementList} {elements q : List ℕ} {i j t : ℕ}

theorem writeAt_getElem (hnodup : elements.Nodup) (ht : elements[j]? = some t) (o : Option ℕ) :
    writeAt field elements i o t = if j = i then o else field t := by
  unfold writeAt
  cases hget : elements[i]? with
  | none =>
      rw [if_neg]
      rintro rfl
      exact absurd (hget.symm.trans ht) nofun
  | some element =>
      by_cases hj : j = i
      · rw [if_pos hj]
        rw [hj, hget] at ht
        rw [← Option.some.inj ht]
        exact Function.update_self ..
      · rw [if_neg hj]
        refine Function.update_of_ne (fun heq => hj ?_) ..
        refine (List.getElem?_inj (List.getElem?_eq_some_iff.mp ht).1 hnodup).mp ?_
        rw [ht, hget, heq]

theorem writeAt_of_notMem (ht : t ∉ elements) (o : Option ℕ) :
    writeAt field elements i o t = field t := by
  unfold writeAt
  cases hget : elements[i]? with
  | none => rfl
  | some element =>
      refine Function.update_of_ne ?_ ..
      rintro rfl
      exact ht (List.mem_of_getElem? hget)

theorem linkMiddle_loop (l : ElementList) (hnodup : elements.Nodup) (rounds : ℕ) :
    let linked := (List.range' 1 rounds).foldl (linkMiddle elements) l
    (∀ j t, elements[j]? = some t →
      linked.next t = (if 1 ≤ j ∧ j ≤ rounds then elements[j + 1]? else l.next t) ∧
      linked.prev t = if 1 ≤ j ∧ j ≤ rounds then elements[j - 1]? else l.prev t) ∧
    (∀ t ∉ elements, linked.next t = l.next t ∧ linked.prev t = l.prev t) ∧
    linked.head = l.head ∧ linked.size = l.size := by
  induction rounds with
  | zero =>
      refine ⟨fun j t ht => ?_, fun t ht => ⟨rfl, rfl⟩, rfl, rfl⟩
      have hnone : ¬(1 ≤ j ∧ j ≤ 0) := by omega
      rw [if_neg hnone, if_neg hnone]
      exact ⟨rfl, rfl⟩
  | succ rounds ih =>
      obtain ⟨hinside, houtside, hhead, hsize⟩ := ih
      rw [List.range'_concat, List.foldl_append]
      refine ⟨fun j t ht => ?_, fun t ht => ?_, hhead, hsize⟩
      · have hround : j = 1 + 1 * rounds ∨ (1 ≤ j ∧ j ≤ rounds + 1 ↔ 1 ≤ j ∧ j ≤ rounds) := by omega
        change writeAt _ elements _ _ t = _ ∧ writeAt _ elements _ _ t = _
        rw [writeAt_getElem hnodup ht, writeAt_getElem hnodup ht]
        obtain ⟨hnext, hprev⟩ := hinside j t ht
        by_cases hj : j = 1 + 1 * rounds
        · rw [if_pos hj, if_pos hj, if_pos (by omega), if_pos (by omega), ← hj]
          exact ⟨rfl, rfl⟩
        · rw [if_neg hj, if_neg hj, if_congr (hround.resolve_left hj) rfl rfl,
            if_congr (hround.resolve_left hj) rfl rfl]
          exact ⟨hnext, hprev⟩
      · change writeAt _ elements _ _ t = _ ∧ writeAt _ elements _ _ t = _
        rw [writeAt_of_notMem ht, writeAt_of_notMem ht]
        exact houtside t ht

theorem linkTogether_links (l : ElementList) (hnodup : elements.Nodup) :
    (∀ j t, elements[j]? = some t →
      (j + 1 < elements.length → (l.linkTogether elements).next t = elements[j + 1]?) ∧
      (0 < j → (l.linkTogether elements).prev t = elements[j - 1]?)) ∧
    (∀ t ∉ elements, (l.linkTogether elements).next t = l.next t ∧
      (l.linkTogether elements).prev t = l.prev t) ∧
    (l.linkTogether elements).head = l.head ∧ (l.linkTogether elements).size = l.size := by
  obtain ⟨hinside, houtside, hhead, hsize⟩ :=
    linkMiddle_loop l hnodup (elements.length - 1 - 1)
  unfold linkTogether
  dsimp only
  split
  next hmany =>
    refine ⟨fun j t ht => ?_, fun t ht => ?_, hhead, hsize⟩
    · have hj := (List.getElem?_eq_some_iff.mp ht).1
      obtain ⟨hnext, hprev⟩ := hinside j t ht
      refine ⟨fun hbehind => ?_, fun hbefore => ?_⟩
      · change writeAt _ elements _ _ t = _
        rw [writeAt_getElem hnodup ht]
        split
        next hzero => rw [hzero]
        next hzero => rw [hnext, if_pos (by omega)]
      · change writeAt _ elements _ _ t = _
        rw [writeAt_getElem hnodup ht]
        split
        next hlast => rw [hlast]
        next hlast => exact hprev.trans (if_pos (by omega))
    · change writeAt _ elements _ _ t = _ ∧ writeAt _ elements _ _ t = _
      rw [writeAt_of_notMem ht, writeAt_of_notMem ht]
      exact houtside t ht
  next hfew =>
    refine ⟨fun j t ht => ?_, houtside, hhead, hsize⟩
    have hj := (List.getElem?_eq_some_iff.mp ht).1
    exact ⟨fun hbehind => absurd hbehind (by omega), fun hbefore => absurd hj (by omega)⟩

theorem link_next (l : ElementList) (hnodup : elements.Nodup) (hsome : elements ≠ []) :
    (∀ j t, elements[j]? = some t → (l.link elements).next t = elements[j + 1]?.or l.head) ∧
    ∀ t ∉ elements, (l.link elements).next t = l.next t := by
  obtain ⟨hinside, houtside, hhead, -⟩ := linkTogether_links l hnodup
  have hlength : elements.length ≠ 0 := fun h => hsome (List.length_eq_zero_iff.mp h)
  have hnext : (l.link elements).next =
      writeAt (l.linkTogether elements).next elements (elements.length - 1) l.head := by
    unfold ElementList.link
    rw [if_neg hlength]
    dsimp only
    rw [hhead]
    cases l.head <;> rfl
  rw [hnext]
  refine ⟨fun j t ht => ?_, fun t ht => ?_⟩
  · have hj := (List.getElem?_eq_some_iff.mp ht).1
    rw [writeAt_getElem hnodup ht]
    split
    next hlast => rw [List.getElem?_eq_none (by omega), Option.none_or]
    next hlast =>
      have hbehind : j + 1 < elements.length := by omega
      rw [(hinside j t ht).1 hbehind, List.getElem?_eq_getElem hbehind, Option.some_or]
  · rw [writeAt_of_notMem ht]
    exact (houtside t ht).1

theorem link_prev (l : ElementList) (hnodup : elements.Nodup) (hsome : elements ≠ [])
    (hhead : ∀ t ∈ elements, l.head ≠ some t) :
    (∀ t, elements.head? = some t → (l.link elements).prev t = none) ∧
    (∀ j t, elements[j + 1]? = some t → (l.link elements).prev t = elements[j]?) ∧
    ∀ t ∉ elements, (l.link elements).prev t =
      if l.head = some t then elements.getLast? else l.prev t := by
  obtain ⟨hinside, houtside, hkept, -⟩ := linkTogether_links l hnodup
  have hlength : elements.length ≠ 0 := fun h => hsome (List.length_eq_zero_iff.mp h)
  have hprev : ∀ t, (l.link elements).prev t = if l.head = some t then elements.getLast? else
      writeAt (l.linkTogether elements).prev elements 0 none t := by
    intro t
    unfold ElementList.link
    rw [if_neg hlength]
    dsimp only
    rw [hkept, List.getLast?_eq_getElem?]
    cases hhead : l.head with
    | none => rfl
    | some head =>
        change Function.update _ head _ t = _
        rw [Function.update_apply]
        exact if_congr ⟨fun h => congrArg some h.symm, fun h => (Option.some.inj h).symm⟩ rfl rfl
  refine ⟨fun t ht => ?_, fun j t ht => ?_, fun t ht => ?_⟩
  · rw [hprev, if_neg (hhead t (List.mem_of_head? ht))]
    rw [List.head?_eq_getElem?] at ht
    rw [writeAt_getElem hnodup ht, if_pos rfl]
  · rw [hprev, if_neg (hhead t (List.mem_of_getElem? ht)), writeAt_getElem hnodup ht,
      if_neg (Nat.succ_ne_zero j)]
    exact (hinside _ t ht).2 (Nat.succ_pos j)
  · rw [hprev, writeAt_of_notMem ht, (houtside t ht).2]

theorem link_size (l : ElementList) (hnodup : elements.Nodup) :
    (l.link elements).size = l.size + elements.length := by
  obtain ⟨-, -, hhead, hsize⟩ := linkTogether_links l hnodup
  unfold ElementList.link
  split
  next hempty => rw [hempty, Nat.add_zero]
  next =>
    dsimp only
    rw [hhead, ← hsize]
    cases l.head <;> rfl

theorem Represents.link (h : Represents l q) (hnodup : elements.Nodup)
    (hdisjoint : List.Disjoint elements q) : Represents (l.link elements) (elements ++ q) := by
  cases elements with
  | nil => exact h
  | cons first rest =>
      have hsome : first :: rest ≠ [] := List.cons_ne_nil first rest
      have hhead : ∀ t ∈ first :: rest, l.head ≠ some t := fun t ht heq =>
        hdisjoint ht (List.mem_of_head? (h.linked.head_eq ▸ heq))
      obtain ⟨hnext, hkeptNext⟩ := link_next l hnodup hsome
      obtain ⟨hfirst, hprev, hkeptPrev⟩ := link_prev l hnodup hsome hhead
      have hlinked := h.linked.prependBlock hnodup hdisjoint hfirst hprev hnext
        (fun t ht => hkeptNext t fun hmem => hdisjoint hmem ht)
        (fun t ht => hkeptPrev t fun hmem => hdisjoint hmem ht)
      refine ⟨?_, ?_⟩
      · rw [List.getLast?_append]
        exact hlinked
      · rw [link_size l hnodup, List.length_append, Nat.add_comm, h.size]

end Linking

section Unlinking

variable {l : ElementList} {elements q : List ℕ} {t : ℕ}

theorem head_eq_iff (h : Linked l.next l.prev l.head q.getLast? q) (ht : t ∈ q) :
    some t = l.head ↔ l.prev t = none := by
  obtain ⟨before, after, rfl⟩ := List.append_of_mem ht
  rw [h.neighbours.1, h.head_eq, List.getLast?_eq_none_iff]
  cases before with
  | nil => exact iff_of_true rfl rfl
  | cons first before =>
      refine iff_of_false (fun heq => ?_) (List.cons_ne_nil first before)
      obtain rfl := Option.some.inj heq
      exact (List.nodup_cons.mp h.nodup).1 (by simp)

theorem unlinkElement_next (l : ElementList) (t : ℕ) : (l.unlinkElement t).next =
    match l.prev t with
    | some prev => Function.update l.next prev (l.next t)
    | none => l.next := by
  unfold unlinkElement
  cases l.prev t <;> cases l.next t <;> dsimp only <;> split <;> rfl

theorem unlinkElement_prev (l : ElementList) (t : ℕ) : (l.unlinkElement t).prev =
    match l.next t with
    | some next => Function.update l.prev next (l.prev t)
    | none => l.prev := by
  unfold unlinkElement
  cases l.prev t <;> cases l.next t <;> dsimp only <;> split <;> rfl

theorem unlinkElement_head (l : ElementList) (t : ℕ) :
    (l.unlinkElement t).head = if some t = l.head then l.next t else l.head := by
  unfold unlinkElement
  cases l.prev t <;> cases l.next t <;> dsimp only <;> split <;> rfl

theorem unlinkElement_size (l : ElementList) (t : ℕ) : (l.unlinkElement t).size = l.size := by
  unfold unlinkElement
  cases l.prev t <;> cases l.next t <;> dsimp only <;> split <;> rfl

theorem linked_unlinkElement (h : Linked l.next l.prev l.head q.getLast? q) (ht : t ∈ q) :
    Linked (l.unlinkElement t).next (l.unlinkElement t).prev (l.unlinkElement t).head
      (q.erase t).getLast? (q.erase t) := by
  have herase := h.erase ht
  have hhead : (match l.prev t with
      | some _ => l.head
      | none => l.next t) = if some t = l.head then l.next t else l.head := by
    rw [if_congr (head_eq_iff h ht) rfl rfl]
    cases l.prev t <;> rfl
  rw [← herase.tail_eq, unlinkElement_next, unlinkElement_prev, unlinkElement_head, ← hhead]
  cases hprev : l.prev t <;> cases hnext : l.next t <;>
  · rw [hprev, hnext] at herase
    exact herase

theorem perm_append_diff (hnodup : elements.Nodup) (hmem : ∀ t ∈ elements, t ∈ q) :
    (elements ++ q.diff elements).Perm q :=
  List.subperm_append_diff_self_of_count_le fun t _ => (hnodup.subperm hmem).count_le t

theorem Represents.unlink (h : Represents l q) (hnodup : elements.Nodup)
    (hmem : ∀ t ∈ elements, t ∈ q) : Represents (l.unlink elements) (q.diff elements) := by
  have hloop : ∀ (elements q : List ℕ) (l : ElementList),
      Linked l.next l.prev l.head q.getLast? q → elements.Nodup → (∀ t ∈ elements, t ∈ q) →
        Linked (elements.foldl unlinkElement l).next (elements.foldl unlinkElement l).prev
          (elements.foldl unlinkElement l).head (q.diff elements).getLast? (q.diff elements) ∧
        (elements.foldl unlinkElement l).size = l.size := by
    intro elements
    induction elements with
    | nil => exact fun q l h _ _ => ⟨h, rfl⟩
    | cons t elements ih =>
        intro q l h hnodup hmem
        obtain ⟨ht, hnodup⟩ := List.nodup_cons.mp hnodup
        obtain ⟨hlinked, hsize⟩ := ih (q.erase t) (l.unlinkElement t)
          (linked_unlinkElement h (hmem t List.mem_cons_self)) hnodup fun u hu =>
            (List.mem_erase_of_ne (ne_of_mem_of_not_mem hu ht)).mpr
              (hmem u (List.mem_cons_of_mem t hu))
        rw [List.foldl_cons, List.diff_cons]
        exact ⟨hlinked, hsize.trans (unlinkElement_size l t)⟩
  obtain ⟨hlinked, hsize⟩ := hloop elements q l h.linked hnodup hmem
  refine ⟨hlinked, ?_⟩
  change (elements.foldl unlinkElement l).size - elements.length = _
  rw [hsize, h.size, ← (perm_append_diff hnodup hmem).length_eq, List.length_append,
    Nat.add_sub_cancel_left]

theorem diff_take (q : List ℕ) (n : ℕ) : q.diff (q.take n) = q.drop n := by
  induction q generalizing n with
  | nil => rw [List.take_nil, List.drop_nil, List.diff_nil]
  | cons t q ih =>
      cases n with
      | zero => rfl
      | succ n =>
          rw [List.take_succ_cons, List.diff_cons, List.erase_cons_head, ih, List.drop_succ_cons]

theorem collect_eq (h : Represents l q) (nelements : ℕ) :
    collect l.next nelements l.head = q.take nelements := by
  have hfrom : ∀ (q : List ℕ) (p : Option ℕ) (nelements : ℕ), Segment l.next l.prev p q none →
      collect l.next nelements q.head? = q.take nelements := by
    intro q
    induction q with
    | nil => intro p nelements _; cases nelements <;> rfl
    | cons t q ih =>
        intro p nelements hq
        obtain ⟨-, hnext, hq⟩ := hq
        cases nelements with
        | zero => rfl
        | succ nelements =>
            rw [List.head?_cons, collect, hnext, Option.or_none, ih _ _ hq, List.take_succ_cons]
  rw [h.linked.head_eq]
  exact hfrom q none nelements h.linked.segment

theorem Represents.zero (h : Represents l q) (hdisjoint : List.Disjoint elements q) :
    Represents (l.zero elements) q := by
  refine ⟨h.linked.congr (fun t ht => ?_) (fun t ht => ?_), h.size⟩
  · exact if_neg fun hmem => hdisjoint hmem ht
  · exact if_neg fun hmem => hdisjoint hmem ht

theorem represents_empty : Represents empty [] where
  linked := ⟨List.nodup_nil, rfl, rfl, trivial⟩
  size := rfl

end Unlinking

end ElementList

end Utils

end PomeloUdp
