import PomeloUdp.Utils.LinkedList
import PomeloUdp.Utils.List

/-!
# The two models of a list

`PomeloList` is what the protocol and the API see of a `pomelo_list_t`, and `LinkedList` is the
list in memory. `Shows l s p` says that `l` is the sequence `s` of entries with their elements, and
that `p` is the sequence of the elements with the same count of modifications, which is a 64-bit
number in memory. Every function of `PomeloList` does what the function of `LinkedList` does, and an
iterator meets the same elements in both for as long as the count has not come round.
-/

namespace PomeloUdp

namespace Utils

open Links

namespace LinkedList

variable {α : Type*} {l : LinkedList α} {s : List (ℕ × α)} {p : PomeloList α}

/-- `p` is what is seen of the list `l` in memory. -/
structure Shows (l : LinkedList α) (s : List (ℕ × α)) (p : PomeloList α) : Prop where
  held : Held l s
  elements : p.elements = s.map Prod.snd
  modCount : l.modCount = .ofNat 64 p.modCount

section Changes

theorem shows_create (element : ℕ → α) : Shows (create element) [] .create :=
  ⟨held_create element, rfl, rfl⟩

theorem exists_split_of_any {q : α → Bool} (hany : p.elements.any q = true)
    (helements : p.elements = s.map Prod.snd) :
    ∃ s₁ x s₂, s = s₁ ++ x :: s₂ ∧ q x.2 = true ∧ ∀ y ∈ s₁, q y.2 = false := by
  rw [helements, List.any_map] at hany
  obtain ⟨x, hx⟩ := Option.isSome_iff_exists.mp (List.find?_isSome.mpr (List.any_eq_true.mp hany))
  obtain ⟨hq, s₁, s₂, hsplit, hbefore⟩ := List.find?_eq_some_iff_append.mp hx
  exact ⟨s₁, x, s₂, hsplit, hq, fun y hy => by simpa using hbefore y hy⟩

theorem Shows.modCount_succ (h : Shows l s p) {l' : LinkedList α}
    (hcount : l'.modCount = l.modCount + 1) :
    l'.modCount = .ofNat 64 (p.modCount + 1) := by
  rw [hcount, h.modCount, BitVec.ofNat_add]
  rfl

theorem modCount_linkBack {entry : ℕ} (h : (l.linkBack entry).fault = false) :
    (l.linkBack entry).modCount = l.modCount + 1 := by
  unfold linkBack at h ⊢
  split at h
  next hempty =>
    rw [if_pos hempty]
    rfl
  next hsome =>
    rw [if_neg hsome]
    cases hback : l.back with
    | none =>
        rw [hback] at h
        exact absurd h Bool.true_eq_false.mp
    | some back => rfl

theorem Shows.pushBack (h : Shows l s p) (a : α) : ∃ entry l',
    l.pushBack true a = (l', some entry) ∧ Shows l' (s ++ [(entry, a)]) (p.pushBack a) := by
  obtain ⟨entry, pool, hacquire, -⟩ := h.held.sound.acquire
  obtain ⟨entry', l', hpush, -, hheld⟩ := h.held.pushBack a
  unfold LinkedList.pushBack appendBack at hpush
  rw [hacquire] at hpush
  obtain ⟨rfl, hentry⟩ := Prod.mk.inj hpush
  obtain rfl := Option.some.inj hentry
  refine ⟨entry, _, by unfold LinkedList.pushBack appendBack; rw [hacquire], hheld, ?_, ?_⟩
  · rw [PomeloList.pushBack_elements, h.elements, List.map_append]
    rfl
  · exact h.modCount_succ (modCount_linkBack hheld.represents.fault)

theorem Shows.removeEntry {s₁ s₂ : List (ℕ × α)} {x : ℕ × α} (h : Shows l (s₁ ++ x :: s₂) p) :
    Shows (l.removeEntry x.1) (s₁ ++ s₂) ⟨(s₁ ++ s₂).map Prod.snd, p.modCount + 1⟩ := by
  have hlinked := h.held.represents.linked
  rw [List.map_append, List.map_cons] at hlinked
  exact ⟨(h.held.removeEntry s₁ s₂).1, rfl, h.modCount_succ (relinked_unlinkEntry hlinked).modCount⟩

theorem Shows.removeFirst (h : Shows l s p) {q : α → Bool} (hany : p.elements.any q = true) :
    ∃ s₁ x s₂, s = s₁ ++ x :: s₂ ∧ q x.2 = true ∧
      Shows (l.remove x.1) (s₁ ++ s₂) (p.removeFirst q) := by
  obtain ⟨s₁, x, s₂, rfl, hq, hbefore⟩ := exists_split_of_any hany h.elements
  refine ⟨s₁, x, s₂, rfl, hq, ?_⟩
  have herase : p.elements.eraseP q = (s₁ ++ s₂).map Prod.snd := by
    rw [h.elements, List.map_append, List.map_cons, List.eraseP_append_right,
      List.eraseP_cons_of_pos hq, List.map_append]
    intro a ha
    obtain ⟨y, hy, rfl⟩ := List.mem_map.mp ha
    rw [hbefore y hy]
    exact Bool.false_ne_true
  unfold PomeloList.removeFirst
  rw [herase]
  exact h.removeEntry

theorem replaceF_append {f : α → Option α} {before after : List α} {a b : α}
    (hbefore : ∀ c ∈ before, f c = none) (ha : f a = some b) :
    (before ++ a :: after).replaceF f = before ++ b :: after := by
  induction before with
  | nil => rw [List.nil_append, List.replaceF_cons_of_some f ha]; rfl
  | cons c before ih =>
      rw [List.cons_append, List.replaceF_cons_of_none f (hbefore c List.mem_cons_self),
        ih fun d hd => hbefore d (List.mem_cons_of_mem c hd)]
      rfl

theorem Shows.writeFirst (h : Shows l s p) {q : α → Bool} (hany : p.elements.any q = true)
    (g : α → α) :
    ∃ s₁ x s₂, s = s₁ ++ x :: s₂ ∧ q x.2 = true ∧
      Shows (l.setElement x.1 (g x.2)) (s₁ ++ (x.1, g x.2) :: s₂) (p.writeFirst q g) := by
  obtain ⟨s₁, x, s₂, rfl, hq, hbefore⟩ := exists_split_of_any hany h.elements
  have hheld := h.held.setElement (k := s₁.length) (x := x) (by simp) (g x.2)
  rw [List.set_append_right _ _ le_rfl, Nat.sub_self, List.set_cons_zero] at hheld
  refine ⟨s₁, x, s₂, rfl, hq, hheld, ?_, h.modCount⟩
  rw [PomeloList.writeFirst_elements, h.elements, List.map_append, List.map_cons,
    replaceF_append (b := g x.2) _ (if_pos hq), List.map_append, List.map_cons]
  intro a ha
  obtain ⟨y, hy, rfl⟩ := List.mem_map.mp ha
  rw [hbefore y hy]
  rfl

theorem Shows.popFront {x : ℕ × α} (h : Shows l (x :: s) p) :
    Shows l.popFront.1 s ⟨s.map Prod.snd, p.modCount + 1⟩ := by
  have hfront : l.front = some x.1 := h.held.represents.linked.head_eq
  have hfirst : Shows l ([] ++ x :: s) p := h
  rw [LinkedList.popFront, hfront]
  exact hfirst.removeEntry

theorem Shows.popAll (h : Shows l s p) :
    Shows ((fun l => l.popFront.1)^[s.length] l) [] p.popAll := by
  unfold PomeloList.popAll
  rw [h.elements, List.length_map]
  induction s generalizing l p with
  | nil => exact ⟨h.held, rfl, h.modCount⟩
  | cons x s ih =>
      have hrest := ih h.popFront
      rw [Nat.succ_add_eq_add_succ] at hrest
      exact hrest

end Changes

section Iterators

variable {it : EntryIterator} {z : ListIterator α}

/-- `z` is what is seen of the iterator `it`: the counts are the same, fewer than `2 ^ 64` changes
were made since, and an iterator that is not out of date is at the same place. -/
structure ShowsIterator (s : List (ℕ × α)) (p : PomeloList α) (it : EntryIterator)
    (z : ListIterator α) : Prop where
  modCount : it.modCount = .ofNat 64 z.modCount
  le : z.modCount ≤ p.modCount
  recent : p.modCount < z.modCount + 2 ^ 64
  place : z.modCount = p.modCount → ∃ s₁ s₂, s = s₁ ++ s₂ ∧ z.passed = s₁.map Prod.snd ∧
    z.next = s₂.map Prod.snd ∧ it.next = s₂.head?.map Prod.fst

theorem Shows.init (h : Shows l s p) : ShowsIterator s p l.iteratorInit (.init p) where
  modCount := h.modCount
  le := le_rfl
  recent := Nat.lt_add_of_pos_right (Nat.two_pow_pos 64)
  place _ := by
    refine ⟨[], s, rfl, rfl, h.elements, ?_⟩
    rw [iteratorInit, h.held.represents.size, h.held.represents.linked.head_eq, List.head?_map]
    cases s <;> rfl

theorem ShowsIterator.changed (h : ShowsIterator s p it z) {s' : List (ℕ × α)} {p' : PomeloList α}
    (hlt : p.modCount < p'.modCount) (hrecent : p'.modCount < z.modCount + 2 ^ 64) :
    ShowsIterator s' p' it z where
  modCount := h.modCount
  le := h.le.trans hlt.le
  recent := hrecent
  place heq := absurd heq (h.le.trans_lt hlt).ne

theorem ShowsIterator.stale_iff (h : ShowsIterator s p it z) (hl : Shows l s p) :
    it.modCount ≠ l.modCount ↔ z.modCount ≠ p.modCount := by
  have hle := h.le
  have hrecent := h.recent
  rw [h.modCount, hl.modCount, ne_eq, ← BitVec.toNat_inj, BitVec.toNat_ofNat, BitVec.toNat_ofNat]
  omega

/-- `pomelo_list_iterator_next` answers the same in both models. -/
theorem Shows.advance (h : Shows l s p) (hit : ShowsIterator s p it z) :
    Option.Rel (fun x y => x.1 = y.1 ∧ ShowsIterator s p x.2 y.2) (l.iteratorNext it)
      (z.advance p) := by
  unfold iteratorNext ListIterator.advance
  by_cases hstale : z.modCount ≠ p.modCount
  · rw [if_pos ((hit.stale_iff h).mpr hstale), if_pos hstale]
    exact .none
  · rw [if_neg fun hne => hstale ((hit.stale_iff h).mp hne), if_neg hstale]
    obtain ⟨s₁, s₂, rfl, hpassed, hnext, hentry⟩ := hit.place (not_not.mp hstale)
    rw [hnext, hentry]
    cases s₂ with
    | nil => exact .none
    | cons x s₂ =>
        have hlinked := h.held.represents.linked
        rw [List.map_append, List.map_cons] at hlinked
        refine .some ⟨h.held.represents.element x (by simp), { hit with
          place := fun _ => ⟨s₁ ++ [x], s₂, by simp, ?_, rfl, ?_⟩ }⟩
        · rw [hpassed, List.map_append]
          rfl
        · exact hlinked.neighbours.2.trans (List.head?_map ..)

end Iterators

end LinkedList

end Utils

end PomeloUdp
