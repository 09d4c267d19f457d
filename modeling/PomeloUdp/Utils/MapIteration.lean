import Mathlib.Algebra.BigOperators.Intervals
import PomeloUdp.Utils.MapRefinement

/-!
# Iterating over the hash map

A `pomelo_map_iterator_t` stands before an entry of a bucket. `CountedMap` is a map with the
modification count that it is compared with, and `IterationState` is such a map with one
iterator, in a run of operations and of calls of the iterator in any order.

A growth may leave entries in buckets where no lookup finds them. The iterator does not look
anything up: it visits the lists of the buckets one after another, so it comes to these entries
too, and `size` counts them. `iteration_run` says that it visits every entry once as long as no
operation changes the structure, and refuses every call afterwards.
-/

namespace PomeloUdp

namespace Utils

open Machine

/-- `pomelo_map_t` with its `mod_count`. -/
structure CountedMap (K V : Type*) extends Map K V where
  modCount : UInt64

/-- `pomelo_map_iterator_t`. The entry is its place in the list of the bucket. -/
structure MapIterator where
  bucketIndex : ℕ
  entry : Option ℕ
  modCount : UInt64
  deriving DecidableEq, Repr

/-- What `pomelo_map_iterator_next` answers: an entry, or `-1`, or `-2`. -/
inductive NextAnswer (K V : Type*) where
  | entry (e : Entry K V)
  | finished
  | modified
  deriving DecidableEq, Repr

namespace Map

variable {K V : Type*}

section Entries

/-- The entries of the buckets below `n`. -/
def entriesBelow (buckets : Buckets K V) (n : ℕ) : List (Entry K V) :=
  (List.range n).flatMap fun i => (buckets i).elements

/-- All entries, in the order of the buckets. -/
def entries (m : Map K V) : List (Entry K V) := entriesBelow m.buckets m.nbuckets

@[simp] theorem entriesBelow_zero (buckets : Buckets K V) : entriesBelow buckets 0 = [] := rfl

theorem entriesBelow_succ (buckets : Buckets K V) (n : ℕ) :
    entriesBelow buckets (n + 1) = entriesBelow buckets n ++ (buckets n).elements := by
  simp [entriesBelow, List.range_succ]

theorem mem_entriesBelow {buckets : Buckets K V} {n : ℕ} {e : Entry K V} :
    e ∈ entriesBelow buckets n ↔ ∃ i < n, e ∈ (buckets i).elements := by
  simp [entriesBelow]

theorem length_entriesBelow (buckets : Buckets K V) (n : ℕ) :
    (entriesBelow buckets n).length =
      ∑ i ∈ Finset.range n, (buckets i).elements.length := by
  induction n with
  | zero => rfl
  | succ n ih => rw [entriesBelow_succ, List.length_append, ih, Finset.sum_range_succ]

theorem entriesBelow_congr {buckets buckets' : Buckets K V} {n : ℕ}
    (h : ∀ i < n, (buckets i).elements.length = (buckets' i).elements.length) :
    (entriesBelow buckets n).length = (entriesBelow buckets' n).length := by
  rw [length_entriesBelow, length_entriesBelow]
  exact Finset.sum_congr rfl fun i hi => h i (Finset.mem_range.mp hi)

theorem length_entriesBelow_update (buckets : Buckets K V) {n i : ℕ} (hi : i < n)
    (l : PomeloList (Entry K V)) :
    (entriesBelow (Function.update buckets i l) n).length + (buckets i).elements.length =
      (entriesBelow buckets n).length + l.elements.length := by
  have hmem : i ∈ Finset.range n := Finset.mem_range.mpr hi
  have hrest : ∑ j ∈ (Finset.range n).erase i,
      (Function.update buckets i l j).elements.length =
        ∑ j ∈ (Finset.range n).erase i, (buckets j).elements.length := by
    refine Finset.sum_congr rfl fun j hj => ?_
    rw [Function.update_of_ne (Finset.ne_of_mem_erase hj)]
  rw [length_entriesBelow, length_entriesBelow, ← Finset.add_sum_erase _ _ hmem,
    ← Finset.add_sum_erase _ _ hmem, hrest, Function.update_self]
  omega

theorem entriesBelow_getElem? (buckets : Buckets K V) {n i place : ℕ} (hi : i < n)
    (hplace : place < (buckets i).elements.length) :
    (entriesBelow buckets n)[(entriesBelow buckets i).length + place]? =
      some ((buckets i).elements[place]) := by
  induction n with
  | zero => omega
  | succ n ih =>
      rw [entriesBelow_succ]
      rcases Nat.lt_succ_iff_lt_or_eq.mp hi with hlt | rfl
      · have hold := ih hlt
        rw [List.getElem?_append_left (List.getElem?_eq_some_iff.mp hold).1, hold]
      · rw [List.getElem?_append_right (Nat.le_add_right _ _), Nat.add_sub_cancel_left,
          List.getElem?_eq_getElem hplace]

end Entries

section Iterator

/-- The loops of the iterator over the buckets from `i` on: the first one that is not empty. -/
def nextBucket (m : Map K V) (i : ℕ) : Option ℕ :=
  (List.range' i (m.nbuckets - i)).find? fun j => !(m.buckets j).elements.isEmpty

/-- `pomelo_map_iterator_init`. -/
def iteratorInit (m : CountedMap K V) : MapIterator :=
  if 0 < m.size then
    match nextBucket m.toMap 0 with
    | some i => ⟨i, some 0, m.modCount⟩
    | none => ⟨0, none, m.modCount⟩
  else ⟨0, none, m.modCount⟩

/-- `pomelo_map_iterator_next`. -/
def iteratorNext (m : CountedMap K V) (it : MapIterator) : MapIterator × NextAnswer K V :=
  if it.modCount ≠ m.modCount then (it, .modified)
  else
    match it.entry with
    | none => (it, .finished)
    | some place =>
        match (m.buckets it.bucketIndex).elements.drop place with
        | [] => (it, .finished)
        | [e] =>
            match nextBucket m.toMap (it.bucketIndex + 1) with
            | some i => ({ it with bucketIndex := i, entry := some 0 }, .entry e)
            | none => ({ it with entry := none }, .entry e)
        | e :: _ :: _ => ({ it with entry := some (place + 1) }, .entry e)

theorem nextBucket_eq_some {m : Map K V} {i j : ℕ} (h : nextBucket m i = some j) :
    j < m.nbuckets ∧ 0 < (m.buckets j).elements.length ∧
      (entriesBelow m.buckets j).length = (entriesBelow m.buckets i).length := by
  obtain ⟨hj, pre, post, hsplit, hpre⟩ := List.find?_eq_some_iff_append.mp h
  have hmem : j ∈ List.range' i (m.nbuckets - i) := by simp [hsplit]
  obtain ⟨hij, hjn⟩ := List.mem_range'_1.mp hmem
  refine ⟨by omega, ?_, ?_⟩
  · simpa [List.length_pos_iff] using hj
  · have hempty : ∀ l ∈ Finset.Ico i j, (m.buckets l).elements.length = 0 := by
      intro l hl
      obtain ⟨hil, hlj⟩ := Finset.mem_Ico.mp hl
      have hmeml : l ∈ pre ++ j :: post := by
        rw [← hsplit]
        exact List.mem_range'_1.mpr ⟨hil, by omega⟩
      have hsorted : (pre ++ j :: post).Pairwise (· < ·) := by
        rw [← hsplit]
        exact List.pairwise_lt_range'
      have hbefore : l ∈ pre := by
        rcases List.mem_append.mp hmeml with hmem | hmem
        · exact hmem
        · rcases List.mem_cons.mp hmem with rfl | hmem
          · exact absurd hlj (lt_irrefl _)
          · have hlt := (List.pairwise_cons.mp (List.pairwise_append.mp hsorted).2.1).1 l hmem
            omega
      simpa using hpre l hbefore
    have hsum := Finset.sum_eq_zero hempty
    rw [length_entriesBelow, length_entriesBelow,
      ← Finset.sum_range_add_sum_Ico _ hij, hsum, Nat.add_zero]

theorem nextBucket_eq_none {m : Map K V} {i : ℕ} (hi : i ≤ m.nbuckets)
    (h : nextBucket m i = none) :
    (entries m).length = (entriesBelow m.buckets i).length := by
  have hempty : ∀ l ∈ Finset.Ico i m.nbuckets, (m.buckets l).elements.length = 0 := by
    intro l hl
    obtain ⟨hil, hln⟩ := Finset.mem_Ico.mp hl
    simpa using List.find?_eq_none.mp h l (List.mem_range'_1.mpr ⟨hil, by omega⟩)
  have hsum := Finset.sum_eq_zero hempty
  rw [entries, length_entriesBelow, length_entriesBelow,
    ← Finset.sum_range_add_sum_Ico _ hi, hsum, Nat.add_zero]

/-- The iterator has passed `k` entries of the map. -/
def At (m : Map K V) (it : MapIterator) (k : ℕ) : Prop :=
  match it.entry with
  | none => (entries m).length ≤ k
  | some place => it.bucketIndex < m.nbuckets ∧
      place < (m.buckets it.bucketIndex).elements.length ∧
      (entriesBelow m.buckets it.bucketIndex).length + place = k

/-- What the iterator answers after `k` entries. -/
def answerAt (m : Map K V) (k : ℕ) : NextAnswer K V :=
  match (entries m)[k]? with
  | some e => .entry e
  | none => .finished

theorem at_some {m : Map K V} {i j k : ℕ} {modCount : UInt64} (h : nextBucket m i = some j)
    (hk : (entriesBelow m.buckets i).length = k) : At m ⟨j, some 0, modCount⟩ k := by
  obtain ⟨hj, hpos, hlength⟩ := nextBucket_eq_some h
  exact ⟨hj, hpos, hlength.trans hk⟩

theorem at_none {m : Map K V} {i k bucketIndex : ℕ} {modCount : UInt64} (hi : i ≤ m.nbuckets)
    (h : nextBucket m i = none) (hk : (entriesBelow m.buckets i).length = k) :
    At m ⟨bucketIndex, none, modCount⟩ k :=
  ((nextBucket_eq_none hi h).trans hk).le

theorem At.congr {m m' : Map K V} {it : MapIterator} {k : ℕ} (h : At m it k)
    (hbuckets : m'.nbuckets = m.nbuckets)
    (hlength : ∀ i, (m'.buckets i).elements.length = (m.buckets i).elements.length) :
    At m' it k := by
  have hbelow : ∀ n, (entriesBelow m'.buckets n).length = (entriesBelow m.buckets n).length :=
    fun n => entriesBelow_congr fun i _ => hlength i
  unfold At at h ⊢
  cases hentry : it.entry with
  | none =>
      rw [hentry] at h
      rw [entries, hbelow, hbuckets]
      exact h
  | some place =>
      rw [hentry] at h
      rw [hbelow, hbuckets, hlength]
      exact h

theorem at_iteratorInit (m : CountedMap K V) (hsize : m.size = (entries m.toMap).length) :
    At m.toMap (iteratorInit m) 0 := by
  unfold iteratorInit
  split
  · cases hnext : nextBucket m.toMap 0 with
    | some i => exact at_some hnext rfl
    | none => exact at_none (Nat.zero_le _) hnext rfl
  · next hzero =>
      have hlength : (entries m.toMap).length ≤ 0 := by omega
      exact hlength

theorem modCount_iteratorInit (m : CountedMap K V) : (iteratorInit m).modCount = m.modCount := by
  unfold iteratorInit
  split
  · split <;> rfl
  · rfl

theorem modCount_iteratorNext (m : CountedMap K V) (it : MapIterator) :
    (iteratorNext m it).1.modCount = it.modCount := by
  unfold iteratorNext
  split
  · rfl
  · split
    · rfl
    · split
      · rfl
      · split <;> rfl
      · rfl

theorem At.iteratorNext {m : CountedMap K V} {it : MapIterator} {k : ℕ} (h : At m.toMap it k)
    (hmod : it.modCount = m.modCount) :
    (iteratorNext m it).2 = answerAt m.toMap k ∧
      At m.toMap (Map.iteratorNext m it).1 (k + 1) := by
  unfold Map.iteratorNext
  rw [if_neg (not_not.mpr hmod)]
  unfold At at h
  cases hentry : it.entry with
  | none =>
      rw [hentry] at h
      have hend : (entries m.toMap)[k]? = none := List.getElem?_eq_none h
      refine ⟨by simp only [answerAt, hend], ?_⟩
      dsimp only [At]
      rw [hentry]
      exact Nat.le_succ_of_le h
  | some place =>
      rw [hentry] at h
      obtain ⟨hindex, hplace, hk⟩ := h
      have hat : (entries m.toMap)[k]? = some ((m.buckets it.bucketIndex).elements[place]) := by
        rw [← hk]
        exact entriesBelow_getElem? m.buckets hindex hplace
      have hanswer : answerAt m.toMap k =
          .entry ((m.buckets it.bucketIndex).elements[place]) := by
        simp only [answerAt, hat]
      have hdrop := List.drop_eq_getElem_cons hplace
      cases hrest : (m.buckets it.bucketIndex).elements.drop (place + 1) with
      | nil =>
          have hlast : (entriesBelow m.buckets (it.bucketIndex + 1)).length = k + 1 := by
            have hle := List.drop_eq_nil_iff.mp hrest
            rw [entriesBelow_succ, List.length_append]
            omega
          rw [hrest] at hdrop
          simp only [hdrop]
          cases hnext : nextBucket m.toMap (it.bucketIndex + 1) with
          | some i => exact ⟨hanswer.symm, at_some hnext hlast⟩
          | none => exact ⟨hanswer.symm, at_none hindex hnext hlast⟩
      | cons e rest =>
          rw [hrest] at hdrop
          simp only [hdrop]
          have hlt : place + 1 < (m.buckets it.bucketIndex).elements.length := by
            by_contra hge
            rw [List.drop_eq_nil_of_le (Nat.not_lt.mp hge)] at hrest
            cases hrest
          exact ⟨hanswer.symm, hindex, hlt, by dsimp only; omega⟩

theorem iteratorNext_of_ne {m : CountedMap K V} {it : MapIterator}
    (hmod : it.modCount ≠ m.modCount) : iteratorNext m it = (it, .modified) := by
  rw [iteratorNext, if_pos hmod]

end Iterator

section Size

variable (o : MapOptions K)

/-- The map counts its entries. -/
structure Counted (m : Map K V) : Prop where
  pos : 0 < m.nbuckets
  size : m.size = (entries m).length

theorem length_redistribute (buckets : Buckets K V) {nbuckets i : ℕ} (hi : i < nbuckets) :
    (entriesBelow (redistribute o nbuckets i buckets) nbuckets).length =
      (entriesBelow buckets nbuckets).length := by
  cases hmovers : movers o.toKeyFunctions nbuckets i (buckets i).elements with
  | nil => rw [redistribute_of_forall_stay o nbuckets i (movers_eq_nil_iff.mp hmovers)]
  | cons e more =>
      obtain ⟨stay, rest, hsplit, hstay, he, -⟩ := List.filter_eq_cons_iff.mp hmovers
      have he : o.hash e.key % nbuckets ≠ i := by simpa using he
      have hstay : ∀ a ∈ stay, o.hash a.key % nbuckets = i := by simpa using hstay
      rw [redistribute_of_mover o nbuckets i hsplit hstay he]
      have htaken := length_entriesBelow_update buckets hi
        ⟨stay ++ rest, (buckets i).modCount + 1⟩
      have hgiven := length_entriesBelow_update
        (Function.update buckets i ⟨stay ++ rest, (buckets i).modCount + 1⟩)
        (Nat.mod_lt (o.hash e.key) (Nat.zero_lt_of_lt hi))
        ((buckets (o.hash e.key % nbuckets)).pushBack e)
      rw [Function.update_of_ne he, PomeloList.pushBack_elements, List.length_append] at hgiven
      rw [hsplit, List.length_append, List.length_cons, List.length_append] at htaken
      simp only [List.length_cons, List.length_nil] at hgiven
      omega

theorem length_resizeBuckets {m : Map K V} {n : ℕ} (h : m.nbuckets ≤ n) :
    (entries (resizeBuckets o m n)).length = (entries m).length := by
  rw [resizeBuckets]
  split
  · rfl
  · have hfold : ∀ (is : List ℕ) (buckets : Buckets K V), (∀ i ∈ is, i < n) →
        (entriesBelow (is.foldl (fun buckets i => redistribute o n i buckets) buckets) n).length =
          (entriesBelow buckets n).length := by
      intro is
      induction is with
      | nil => exact fun _ _ => rfl
      | cons i is ih =>
          intro buckets his
          rw [List.foldl_cons, ih _ fun j hj => his j (List.mem_cons_of_mem _ hj),
            length_redistribute o buckets (his i List.mem_cons_self)]
    have hinit :
        (entriesBelow (fun i => if i < m.nbuckets then m.buckets i else .create) n).length =
          (entries m).length := by
      rw [entries, length_entriesBelow, length_entriesBelow, ← Finset.sum_range_add_sum_Ico _ h]
      have hold : ∀ i ∈ Finset.range m.nbuckets,
          (if i < m.nbuckets then m.buckets i else .create).elements.length =
            (m.buckets i).elements.length := by
        intro i hi
        rw [if_pos (Finset.mem_range.mp hi)]
      have hnew : ∀ i ∈ Finset.Ico m.nbuckets n,
          (if i < m.nbuckets then m.buckets i else .create).elements.length = 0 := by
        intro i hi
        rw [if_neg (Nat.not_lt.mpr (Finset.mem_Ico.mp hi).1)]
        rfl
      rw [Finset.sum_congr rfl hold, Finset.sum_eq_zero hnew, Nat.add_zero]
    exact (hfold _ _ fun i hi => (List.mem_range.mp hi).trans_le h).trans hinit

variable {o}

theorem counted_create : Counted (create o : Map K V) := by
  have hn : 0 < (if 0 < o.initialBuckets then o.initialBuckets else 16) := by
    split <;> omega
  refine ⟨?_, ?_⟩
  · rw [create, resizeBuckets_nbuckets o hn]
    exact hn
  · rw [create, length_resizeBuckets o (Nat.zero_le _), resizeBuckets_size]
    rfl

/-- Whether an operation changes the structure of the map: `mod_count` grows when an entry is
added or deleted and when the map is cleared, and not when a value is overwritten. -/
def changes (o : MapOptions K) (m : Map K V) : MapOp K V → Bool
  | .set k _ => !has o m k
  | .del k => has o m k
  | .clear => true
  | .get _ => false
  | .has _ => false

/-- The search of `pomelo_map_set_entry` is the one of `pomelo_map_find_entry`. -/
theorem Counted.findEntry_eq {m : Map K V} (h : Counted m) (k : K) :
    (m.buckets (o.hash k % m.nbuckets)).elements.find? (fun e => o.compare e.key k) =
      findEntry o m k := by
  rw [findEntry, if_neg h.pos.ne']

theorem Counted.unchanged {m : Map K V} (h : Counted m) {op : MapOp K V}
    (hop : changes o m op = false) :
    (step o m op).1.nbuckets = m.nbuckets ∧ (step o m op).1.size = m.size ∧
      ∀ i, ((step o m op).1.buckets i).elements.length = (m.buckets i).elements.length := by
  cases op with
  | get k => exact ⟨rfl, rfl, fun _ => rfl⟩
  | has k => exact ⟨rfl, rfl, fun _ => rfl⟩
  | clear => cases hop
  | del k =>
      have hnone : findEntry o m k = none := by simpa [changes, has] using hop
      have hsame : (step o m (.del k)).1 = m := by
        dsimp only [step]
        rw [del, hnone]
      rw [hsame]
      exact ⟨rfl, rfl, fun _ => rfl⟩
  | set k v =>
      obtain ⟨entry, hentry⟩ : ∃ entry, findEntry o m k = some entry := by
        simpa [changes, has, Option.isSome_iff_exists] using hop
      have hset : (step o m (.set k v)).1 = { m with
          buckets := Function.update m.buckets (o.hash k % m.nbuckets)
            ((m.buckets (o.hash k % m.nbuckets)).writeFirst (fun e => o.compare e.key k)
              (fun e => { e with value := v })) } := by
        dsimp only [step]
        rw [setEntry, h.findEntry_eq, hentry]
      rw [hset]
      refine ⟨rfl, rfl, fun i => ?_⟩
      by_cases hi : i = o.hash k % m.nbuckets
      · subst hi
        simp
      · simp [Function.update_of_ne hi]

/-- Every operation keeps the count of the entries, also the one that displaces entries. -/
theorem Counted.step {m : Map K V} (h : Counted m) (op : MapOp K V) :
    Counted (step o m op).1 := by
  cases hop : changes o m op with
  | false =>
      obtain ⟨hbuckets, hsize, hlength⟩ := h.unchanged hop
      refine ⟨by rw [hbuckets]; exact h.pos, ?_⟩
      rw [hsize, h.size, entries, entries, hbuckets]
      exact entriesBelow_congr fun i _ => (hlength i).symm
  | true =>
      cases op with
      | get k => cases hop
      | has k => cases hop
      | clear =>
          refine ⟨h.pos, ?_⟩
          have hempty : ∀ i ∈ Finset.range m.nbuckets,
              (if i < m.nbuckets then (m.buckets i).popAll else m.buckets i).elements.length =
                0 := by
            intro i hi
            rw [if_pos (Finset.mem_range.mp hi)]
            rfl
          have hsum := Finset.sum_eq_zero hempty
          dsimp only [Map.step, clear]
          rw [entries, length_entriesBelow]
          exact hsum.symm
      | del k =>
          obtain ⟨entry, hentry⟩ : ∃ entry, findEntry o m k = some entry := by
            simpa [changes, has, Option.isSome_iff_exists] using hop
          have hfind := h.findEntry_eq (o := o) k
          rw [hentry] at hfind
          have hlt := Nat.mod_lt (o.hash k) h.pos
          have hupdate := length_entriesBelow_update m.buckets hlt
            ((m.buckets (o.hash k % m.nbuckets)).removeFirst (fun e => o.compare e.key k))
          have herase : ((m.buckets (o.hash k % m.nbuckets)).elements.eraseP
              (fun e => o.compare e.key k)).length + 1 =
                (m.buckets (o.hash k % m.nbuckets)).elements.length := by
            rw [List.length_eraseP_of_mem (List.mem_of_find?_eq_some hfind)
              (List.find?_some hfind)]
            have hpos := List.length_pos_of_mem (List.mem_of_find?_eq_some hfind)
            omega
          rw [PomeloList.removeFirst_elements] at hupdate
          have hsize := h.size
          dsimp only [Map.step]
          rw [del, hentry]
          refine ⟨h.pos, ?_⟩
          dsimp only [entries] at hsize ⊢
          omega
      | set k v =>
          have hnone : findEntry o m k = none := by simpa [changes, has] using hop
          dsimp only [Map.step]
          rw [setEntry, h.findEntry_eq, hnone]
          dsimp only
          have hgrown : ∀ m' : Map K V, m.nbuckets ≤ m'.nbuckets → m'.size = m.size →
              (entries m').length = (entries m).length →
              Counted { m' with
                size := m'.size + 1
                buckets := Function.update m'.buckets (o.hash k % m.nbuckets)
                  ((m'.buckets (o.hash k % m.nbuckets)).pushBack ⟨k, v⟩) } := by
            intro m' hbuckets hsize hentries
            have hlt := (Nat.mod_lt (o.hash k) h.pos).trans_le hbuckets
            have hpush := length_entriesBelow_update m'.buckets hlt
              ((m'.buckets (o.hash k % m.nbuckets)).pushBack ⟨k, v⟩)
            rw [PomeloList.pushBack_elements, List.length_append, List.length_singleton] at hpush
            have hcount := h.size
            refine ⟨h.pos.trans_le hbuckets, ?_⟩
            dsimp only [entries] at hentries hcount ⊢
            omega
          split
          · have hpos := h.pos
            have hlt : m.nbuckets < m.nbuckets * 2 := by omega
            exact hgrown _ (by rw [resizeBuckets_nbuckets o hlt]; exact hlt.le)
              (resizeBuckets_size o m _) (length_resizeBuckets o hlt.le)
          · exact hgrown m le_rfl rfl rfl

end Size

section Specification

variable {o : MapOptions K} {m : Map K V} {s : SpecMap o.toKeyFunctions V}

theorem findIn_of_mem {f : KeyFunctions K} {l : List (Entry K V)} (hl : Distinct f l)
    {e : Entry K V} (he : e ∈ l) {k : K} (hk : f.compare e.key k = true) :
    findIn f k l = some e := by
  induction l with
  | nil => cases he
  | cons a l ih =>
      obtain ⟨ha, hl⟩ := List.pairwise_cons.mp hl
      rw [findIn_cons]
      rcases List.mem_cons.mp he with rfl | he
      · rw [if_pos hk]
      · rw [← f.compare_congr hk a.key, ha e he]
        exact ih hl he

theorem Valid.distinct_entries (h : Valid o m) : Distinct o.toKeyFunctions (entries m) := by
  refine List.pairwise_flatMap.mpr ⟨fun i hi => h.distinct i (List.mem_range.mp hi), ?_⟩
  refine List.pairwise_lt_range.imp_of_mem fun {i j} hi hj hij e he e' he' => ?_
  cases hcompare : o.compare e.key e'.key with
  | false => rfl
  | true =>
      have hplace := h.placed i (List.mem_range.mp hi) e he
      have hplace' := h.placed j (List.mem_range.mp hj) e' he'
      rw [o.hash_eq _ _ hcompare] at hplace
      exact absurd (hplace.symm.trans hplace') hij.ne

theorem Represents.lookup_iff (h : Represents o m s) (k : K) (v : V) :
    s.lookup (o.key k) = some v ↔
      ∃ e ∈ entries m, o.key e.key = o.key k ∧ e.value = v := by
  rw [← h.lookup k, get, h.findEntry_eq]
  constructor
  · intro hget
    obtain ⟨e, hfind, rfl⟩ := Option.map_eq_some_iff.mp hget
    have hsearch : (m.buckets (o.hash k % m.nbuckets)).elements.find?
        (fun e => o.compare e.key k) = some e := hfind
    have hcompare := List.find?_some hsearch
    exact ⟨e, mem_entriesBelow.mpr ⟨_, h.index_lt k, List.mem_of_find?_eq_some hsearch⟩,
      (o.key_eq_iff _ _).mpr hcompare, rfl⟩
  · rintro ⟨e, he, hkey, rfl⟩
    obtain ⟨i, hi, hmem⟩ := mem_entriesBelow.mp he
    have hcompare := (o.key_eq_iff _ _).mp hkey
    have hplace : o.hash k % m.nbuckets = i := by
      rw [← o.hash_eq _ _ hcompare]
      exact h.placed i hi e hmem
    rw [hplace, findIn_of_mem (h.distinct i hi) hmem hcompare, Option.map_some]

end Specification

end Map

/-- A map with an iterator. -/
structure IterationState (K V : Type*) where
  map : CountedMap K V
  iterator : Option MapIterator

/-- What a user of both calls. -/
inductive IterationCall (K V : Type*) where
  | op (op : MapOp K V)
  | init
  | next

namespace IterationState

open Map

variable {K V : Type*} (o : MapOptions K)

/-- A new map. -/
def start : IterationState K V := ⟨⟨create o, 0⟩, none⟩

/-- One call. The operations that change the structure count it. -/
def step (s : IterationState K V) : IterationCall K V → IterationState K V
  | .op op =>
      { s with map := {
          toMap := (Map.step o s.map.toMap op).1
          modCount :=
            if changes o s.map.toMap op then s.map.modCount + 1 else s.map.modCount } }
  | .init => { s with iterator := some (iteratorInit s.map) }
  | .next => { s with iterator := s.iterator.map fun it => (iteratorNext s.map it).1 }

/-- What a call of `pomelo_map_iterator_next` answers now. -/
def nextAnswer (s : IterationState K V) : Option (NextAnswer K V) :=
  s.iterator.map fun it => (iteratorNext s.map it).2

/-- The call leaves the structure of the map alone. -/
def Keeps (s : IterationState K V) : IterationCall K V → Prop
  | .op op => changes o s.map.toMap op = false
  | _ => True

instance (s : IterationState K V) : ∀ call, Decidable (Keeps o s call)
  | .op op => inferInstanceAs (Decidable (changes o s.map.toMap op = false))
  | .init => isTrue trivial
  | .next => isTrue trivial

/-- The operations among some calls. -/
def operations (calls : List (IterationCall K V)) : List (MapOp K V) :=
  calls.filterMap fun
    | .op op => some op
    | _ => none

/-- The number of calls of `pomelo_map_iterator_next`. -/
def nexts (calls : List (IterationCall K V)) : ℕ :=
  calls.countP fun
    | .next => true
    | _ => false

/-- The iterator is `changed` changes behind, and without one it has passed `k` entries. -/
structure Behind (s : IterationState K V) (k changed : ℕ) : Prop where
  counted : Counted s.map.toMap
  iterator : ∃ it, s.iterator = some it ∧
    s.map.modCount = it.modCount + UInt64.ofNat changed ∧
    (changed = 0 → At s.map.toMap it k)

variable {o}

theorem behind_init {s : IterationState K V} (h : Counted s.map.toMap) :
    Behind (step o s .init) 0 0 :=
  ⟨h, iteratorInit s.map, rfl, by simp [step, modCount_iteratorInit],
    fun _ => at_iteratorInit s.map h.size⟩

theorem Behind.op {s : IterationState K V} {k changed : ℕ} (h : Behind s k changed)
    (op : MapOp K V) :
    Behind (step o s (.op op)) k
      (if changes o s.map.toMap op then changed + 1 else changed) := by
  obtain ⟨hcounted, it, hit, hmod, hat⟩ := h
  refine ⟨hcounted.step op, it, hit, ?_, ?_⟩
  · dsimp only [step]
    split
    · rw [hmod, UInt64.add_assoc]
      exact congrArg (it.modCount + ·) (UInt64.ofNat_add changed 1).symm
    · exact hmod
  · cases hop : changes o s.map.toMap op with
    | true => exact fun hzero => absurd hzero (Nat.succ_ne_zero changed)
    | false =>
        intro hzero
        obtain ⟨hbuckets, -, hlength⟩ := hcounted.unchanged hop
        exact (hat hzero).congr hbuckets hlength

theorem modCount_ne {s : IterationState K V} {changed : ℕ} {it : MapIterator}
    (hmod : s.map.modCount = it.modCount + UInt64.ofNat changed) (hpos : changed ≠ 0)
    (hlt : changed < 2 ^ 64) : it.modCount ≠ s.map.modCount := by
  intro heq
  have hzero : UInt64.ofNat changed = 0 := by
    have hsum : it.modCount + UInt64.ofNat changed = it.modCount + 0 := by
      rw [← hmod, ← heq, UInt64.add_zero]
    exact UInt64.add_right_inj _ |>.mp hsum
  have hnat := congrArg UInt64.toNat hzero
  rw [UInt64.toNat_ofNat_of_lt' hlt] at hnat
  exact hpos hnat

theorem Behind.next {s : IterationState K V} {k changed : ℕ} (h : Behind s k changed) :
    Behind (step o s .next) (k + 1) changed := by
  obtain ⟨hcounted, it, hit, hmod, hat⟩ := h
  refine ⟨hcounted, (iteratorNext s.map it).1, by simp [step, hit], ?_, fun hzero => ?_⟩
  · rw [modCount_iteratorNext]
    exact hmod
  · have hup : it.modCount = s.map.modCount := by
      rw [hmod, hzero]
      exact (UInt64.add_zero _).symm
    exact ((hat hzero).iteratorNext hup).2

theorem Behind.nextAnswer {s : IterationState K V} {k changed : ℕ} (h : Behind s k changed)
    (hlt : changed < 2 ^ 64) :
    s.nextAnswer = some (if changed = 0 then answerAt s.map.toMap k else .modified) := by
  obtain ⟨-, it, hit, hmod, hat⟩ := h
  rw [IterationState.nextAnswer, hit, Option.map_some]
  split
  · next hzero =>
      have hup : it.modCount = s.map.modCount := by
        rw [hmod, hzero]
        exact (UInt64.add_zero _).symm
      rw [((hat hzero).iteratorNext hup).1]
  · next hpos => rw [iteratorNext_of_ne (modCount_ne hmod hpos hlt)]

theorem counted_run (calls : List (IterationCall K V)) {s : IterationState K V}
    (h : Counted s.map.toMap) : Counted (run (step o) s calls).map.toMap := by
  induction calls generalizing s with
  | nil => exact h
  | cons call calls ih =>
      refine ih ?_
      cases call with
      | op op => exact h.step op
      | init => exact h
      | next => exact h

/-- The map of a run is that of its operations. -/
theorem map_run (calls : List (IterationCall K V)) (s : IterationState K V) :
    (run (step o) s calls).map.toMap =
      run (Machine.next (Map.step o)) s.map.toMap (operations calls) := by
  induction calls generalizing s with
  | nil => rfl
  | cons call calls ih =>
      rw [run_cons, ih]
      cases call with
      | op op => rfl
      | init => rfl
      | next => rfl

/-- What the calls after an initialisation leave. -/
theorem behind_run {s : IterationState K V} (h : Behind s 0 0)
    (calls : List (IterationCall K V)) (hinit : .init ∉ calls) (hlt : calls.length < 2 ^ 64) :
    ∃ changed ≤ calls.length, Behind (run (step o) s calls) (nexts calls) changed ∧
      (changed = 0 ↔ Along (step o) (Keeps o) s calls) := by
  induction calls using List.reverseRecOn with
  | nil => exact ⟨0, le_rfl, h, by simp⟩
  | append_singleton calls call ih =>
      rw [List.length_append, List.length_singleton] at hlt
      rw [List.mem_append, List.mem_singleton, not_or] at hinit
      obtain ⟨changed, hle, hbehind, hkeeps⟩ := ih hinit.1 (by omega)
      rw [run_append, run_cons, run_nil, along_append, List.length_append,
        List.length_singleton, ← hkeeps]
      have hnexts : nexts (calls ++ [call]) = nexts calls + nexts [call] :=
        List.countP_append
      rw [hnexts]
      cases call with
      | init => exact absurd rfl hinit.2
      | next =>
          refine ⟨changed, by omega, hbehind.next, ?_⟩
          simp [Keeps]
      | op op =>
          refine ⟨_, ?_, hbehind.op op, ?_⟩
          · split <;> omega
          · cases hop : changes o (run (step o) s calls).map.toMap op <;> simp [Keeps, hop]

/-- Every run of a map and an iterator, from the initialisation of the iterator on. The iterator
visits the entries one after another, and after the last one it answers that it is done; after a
change of the structure it answers nothing else. The entries are as many as `size` says, and if no
growth displaced one they are the keys of the finite map with their values, no key twice. -/
theorem iteration_run (o : MapOptions K) (before calls : List (IterationCall K V))
    (hinit : .init ∉ calls) (hlt : calls.length < 2 ^ 64) :
    let s := run (step o) (start o) (before ++ [.init])
    let s' := run (step o) s calls
    let ops := operations (before ++ calls)
    s'.nextAnswer = some (if Along (step o) (Keeps o) s calls
      then answerAt s'.map.toMap (nexts calls) else .modified) ∧
    (entries s'.map.toMap).length = s'.map.size ∧
    (Along (Machine.next (Map.step o)) (GrowthKeepsPlaces o) (create o) ops →
      ((entries s'.map.toMap).map fun e => o.key e.key).Nodup ∧
      ∀ k v, (run (Machine.next SpecMap.step) (∅ : SpecMap o.toKeyFunctions V) ops).lookup
          (o.key k) = some v ↔
        ∃ e ∈ entries s'.map.toMap, o.key e.key = o.key k ∧ e.value = v) := by
  intro s s' ops
  have hcounted : Counted (run (step o) (start o) before).map.toMap :=
    counted_run before counted_create
  have hs : Behind s 0 0 := by
    dsimp only [s]
    rw [run_append]
    exact behind_init (o := o) hcounted
  obtain ⟨changed, hle, hbehind, hkeeps⟩ := behind_run hs calls hinit hlt
  refine ⟨?_, hbehind.counted.size.symm, fun hops => ?_⟩
  · rw [hbehind.nextAnswer (by omega)]
    simp only [hkeeps]
    rfl
  · have hmap : s'.map.toMap = run (Machine.next (Map.step o)) (create o) ops := by
      have hbefore : operations (before ++ [.init] ++ calls) = ops := by
        simp [operations, ops]
      dsimp only [s', s]
      rw [← run_append, map_run, hbefore]
      rfl
    have hrep := (represents_run o hops).1
    rw [hmap]
    refine ⟨List.pairwise_map.mpr (hrep.distinct_entries.imp fun {a b} hab hkey => ?_),
      hrep.lookup_iff⟩
    rw [(o.key_eq_iff _ _).mp hkey] at hab
    cases hab

/-- A map with one bucket at first. -/
def oneBucket : MapOptions UInt64 := { uint64Options with initialBuckets := 1 }

/-- The growth displaces key 1: the map does not find it, but the iterator does. -/
theorem iteration_run_oneBucket :
    let s : IterationState UInt64 Bool := run (step oneBucket) (start oneBucket)
      ([.op (.set 1 true)] ++ [.init])
    get oneBucket s.map.toMap 1 = none ∧ s.nextAnswer = some (.entry ⟨1, true⟩) ∧
      (run (step oneBucket) s [.next]).nextAnswer = some .finished ∧
      (run (step oneBucket) s [.next, .op (.set 1 false)]).nextAnswer = some .modified := by
  intro s
  have hnone := iteration_run oneBucket [.op (.set 1 true)] [] (by simp) (by decide)
  have hone := iteration_run oneBucket [.op (.set 1 true)] [.next] (by simp) (by decide)
  have htwo := iteration_run oneBucket [.op (.set 1 true)] [.next, .op (.set 1 false)] (by simp)
    (by decide)
  refine ⟨by decide +kernel, ?_, ?_, ?_⟩
  · exact hnone.1.trans (by decide +kernel)
  · exact hone.1.trans (by decide +kernel)
  · exact htwo.1.trans (by decide +kernel)

end IterationState

end Utils

end PomeloUdp
