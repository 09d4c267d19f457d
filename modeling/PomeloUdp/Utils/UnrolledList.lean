import Mathlib.Algebra.Order.Group.Nat
import PomeloUdp.Utils.LinkedList

/-!
# The unrolled list

`UnrolledList` is `pomelo_unrolled_list_t`: a linked list whose elements are buckets, each an array
of `bucketElements` elements. What it should be is a sequence (`UnrolledList.actOn`).

The bucket of an index is not always found. `pomelo_unrolled_list_find_bucket` goes one bucket less
far than it should from the front, and it compares the index of a bucket with the number of
elements, so it goes too far from the back (`findBucket_eq_iff`). And `pomelo_unrolled_list_resize`
writes zeros to new buckets alone, so a list that grows inside its last bucket gets back what that
held before. `unrolledList_run` is about the runs that avoid this.
-/

namespace PomeloUdp

namespace Utils

open Links Machine LinkedList

/-- `POMELO_CEIL_DIV`. -/
def ceilDiv (a b : ℕ) : ℕ := a / b + if 0 < a % b then 1 else 0

/-- `pomelo_unrolled_list_t`; a bucket is a function of the index in it. -/
structure UnrolledList (α : Type*) where
  size : ℕ
  bucketElements : ℕ
  entries : LinkedList (ℕ → α)

/-- `pomelo_unrolled_list_iterator_t`; `bucket` is the array of `entry`, if there is one. -/
structure UnrolledIterator where
  entry : Option ℕ
  index : ℕ

/-- The calls of a program. -/
inductive UnrolledCall (α : Type*) where
  | pushBack (a : α)
  | popBack
  | resize (size : ℕ)
  | set (index : ℕ) (a : α)
  | get (index : ℕ)
  /-- `pomelo_unrolled_list_begin` and some calls of `pomelo_unrolled_list_iterator_next`. -/
  | iterate (count : ℕ)

/-- What the calls return, with `none` for the elements that there are not. -/
inductive UnrolledAnswer (α : Type*) where
  | element (a : Option α)
  | success (success : Bool)
  | met (elements : List (Option α))
  deriving DecidableEq

namespace UnrolledList

variable {α : Type*}

/-- `POMELO_UNROLLED_LIST_DEFAULT_ELEMENTS_PER_BUCKET`. -/
def defaultElementsPerBucket : ℕ := 16

/-- `pomelo_unrolled_list_init`; `element` is what the memory of the entries holds. -/
def init (element : ℕ → ℕ → α) (bucketElements : ℕ) : UnrolledList α where
  size := 0
  bucketElements := if bucketElements = 0 then defaultElementsPerBucket else bucketElements
  entries := LinkedList.create element

/-- `pomelo_unrolled_list_find_bucket`, with `none` where it follows a null pointer. -/
def findBucket (l : UnrolledList α) (elementIndex : ℕ) : Option ℕ :=
  let bucketIndex := elementIndex / l.bucketElements
  if bucketIndex < l.size / 2 then
    -- `while (++i < bucket_index)`, from 0
    (fun entry => entry.bind l.entries.next)^[bucketIndex - 1] l.entries.front
  else
    -- `while (--i > bucket_index)`, from the size
    (fun entry => entry.bind l.entries.prev)^[l.size - 1 - bucketIndex] l.entries.back

/-- Writing an element of a bucket. -/
def write (l : UnrolledList α) (bucket offset : ℕ) (a : α) : UnrolledList α :=
  { l with
    entries := l.entries.setElement bucket (Function.update (l.entries.element bucket) offset a) }

/-- The list of buckets gets another length, if it has not got it. -/
def resizeEntries (zero : α) (memory : Bool) (l : UnrolledList α) (bucketSize : ℕ) :
    UnrolledList α × Bool :=
  if bucketSize ≠ l.entries.size then
    let (entries, success) := l.entries.resize (fun _ => zero) memory bucketSize
    ({ l with entries := entries }, success)
  else (l, true)

/-- `pomelo_unrolled_list_resize`. -/
def resize (zero : α) (memory : Bool) (l : UnrolledList α) (size : ℕ) : UnrolledList α × Bool :=
  let (entries, success) :=
    l.entries.resize (fun _ => zero) memory (ceilDiv size l.bucketElements)
  if success then ({ l with entries := entries, size := size }, true)
  else ({ l with entries := entries }, false)

/-- `pomelo_unrolled_list_get`; the outer `none` is a null pointer that is read. -/
def get (l : UnrolledList α) (index : ℕ) : Option (Option α) :=
  if l.size ≤ index then some none
  else (l.findBucket index).map fun bucket =>
    some (l.entries.element bucket (index % l.bucketElements))

/-- `pomelo_unrolled_list_set_ptr`. -/
def set (l : UnrolledList α) (index : ℕ) (a : α) : Option (UnrolledList α × Bool) :=
  if l.size ≤ index then some (l, false)
  else (l.findBucket index).map fun bucket =>
    (l.write bucket (index % l.bucketElements) a, true)

/-- `pomelo_unrolled_list_push_back_ptr`. -/
def pushBack (zero : α) (memory : Bool) (l : UnrolledList α) (a : α) :
    Option (UnrolledList α × Bool) :=
  let newSize := (l.size + 1) % 2 ^ 64
  let (resized, success) := l.resizeEntries zero memory (ceilDiv newSize l.bucketElements)
  if success then
    resized.entries.back.map fun bucket =>
      ({ resized.write bucket (l.size % l.bucketElements) a with size := newSize }, true)
  else some (resized, false)

/-- `pomelo_unrolled_list_pop_back`. -/
def popBack (zero : α) (memory : Bool) (l : UnrolledList α) :
    Option (UnrolledList α × Option α) :=
  if l.size = 0 then some (l, none)
  else l.entries.back.map fun bucket =>
    let a := l.entries.element bucket ((l.size - 1) % l.bucketElements)
    let (resized, success) :=
      l.resizeEntries zero memory (ceilDiv (l.size - 1) l.bucketElements)
    if success then ({ resized with size := l.size - 1 }, some a) else (resized, none)

section Iterator

/-- `pomelo_unrolled_list_begin`. -/
def iteratorBegin (l : UnrolledList α) : UnrolledIterator where
  entry := if l.size = 0 then none else l.entries.front
  index := 0

/-- `pomelo_unrolled_list_iterator_next`. -/
def iteratorNext (l : UnrolledList α) (it : UnrolledIterator) :
    Option (UnrolledIterator × Option α) :=
  if l.size ≤ it.index then some (it, none)
  else it.entry.map fun entry =>
    let bucketIndex := it.index % l.bucketElements
    let next := if bucketIndex = l.bucketElements - 1 then l.entries.next entry else some entry
    (⟨next, it.index + 1⟩, some (l.entries.element entry bucketIndex))

/-- Some calls of `pomelo_unrolled_list_iterator_next`. -/
def iterateFrom (l : UnrolledList α) : ℕ → UnrolledIterator → Option (List (Option α))
  | 0, _ => some []
  | count + 1, it =>
      match l.iteratorNext it with
      | none => none
      | some (it, a) => (l.iterateFrom count it).map (a :: ·)

end Iterator

/-- One call, with an allocator that has memory; without an answer where a null pointer is read. -/
def step (zero : α) (l : UnrolledList α) :
    UnrolledCall α → UnrolledList α × Option (UnrolledAnswer α)
  | .pushBack a =>
      match l.pushBack zero true a with
      | none => (l, none)
      | some (l, success) => (l, some (.success success))
  | .popBack =>
      match l.popBack zero true with
      | none => (l, none)
      | some (l, a) => (l, some (.element a))
  | .resize size => (l.resize zero true size).map id fun success => some (.success success)
  | .set index a =>
      match l.set index a with
      | none => (l, none)
      | some (l, success) => (l, some (.success success))
  | .get index => (l, (l.get index).map .element)
  | .iterate count => (l, (l.iterateFrom count l.iteratorBegin).map .met)

section Specification

/-- The calls on a sequence. -/
def actOn (zero : α) (s : List α) : UnrolledCall α → List α × Option (UnrolledAnswer α)
  | .pushBack a => (s ++ [a], some (.success true))
  | .popBack => (s.dropLast, some (.element s.getLast?))
  | .resize size =>
      (s.take size ++ List.replicate (size - s.length) zero, some (.success true))
  | .set index a => (s.set index a, some (.success (decide (index < s.length))))
  | .get index => (s, some (.element s[index]?))
  | .iterate count => (s, some (.met ((List.range count).map (s[·]?))))

/-- The bucket of the index is the first one, or the buckets have one element each and the index
is not nearer to the front. -/
def Found (l : UnrolledList α) (index : ℕ) : Prop :=
  index / l.bucketElements = 0 ∨ l.bucketElements = 1 ∧ l.size / 2 ≤ index

instance (l : UnrolledList α) (index : ℕ) : Decidable (l.Found index) :=
  inferInstanceAs (Decidable (_ ∨ _))

/-- What the last bucket holds behind the elements of the list is zero, as far as a list of this
size reaches. -/
def Blank (zero : α) (l : UnrolledList α) (size : ℕ) : Prop :=
  ∀ bucket ∈ l.entries.back, ∀ i < size, l.size ≤ i → i / l.bucketElements < l.entries.size →
    l.entries.element bucket (i % l.bucketElements) = zero

instance [DecidableEq α] (zero : α) (l : UnrolledList α) (size : ℕ) :
    Decidable (l.Blank zero size) :=
  inferInstanceAs (Decidable (∀ bucket ∈ l.entries.back, ∀ i < size, _ → _ → _ = _))

/-- The calls that the list serves as a sequence would. -/
def Served (zero : α) (l : UnrolledList α) : UnrolledCall α → Prop
  | .pushBack _ => l.size + 1 < 2 ^ 64
  | .resize size => l.Blank zero size
  | .set index _ | .get index => index < l.size → l.Found index
  | .popBack | .iterate _ => True

instance [DecidableEq α] (zero : α) (l : UnrolledList α) (call : UnrolledCall α) :
    Decidable (l.Served zero call) := by
  cases call <;> unfold Served <;> infer_instance

end Specification

section Arithmetic

variable {a b i j n : ℕ}

theorem ceilDiv_zero (b : ℕ) : ceilDiv 0 b = 0 := by simp [ceilDiv]

theorem ceilDiv_succ (n b : ℕ) : ceilDiv (n + 1) b = n / b + 1 := by
  rw [ceilDiv, Nat.succ_div]
  by_cases hdvd : b ∣ n + 1
  · rw [if_pos hdvd, Nat.mod_eq_zero_of_dvd hdvd, if_neg (Nat.lt_irrefl 0)]
  · rw [if_neg hdvd, if_pos (Nat.pos_of_ne_zero fun hmod => hdvd (Nat.dvd_of_mod_eq_zero hmod))]

theorem div_lt_ceilDiv (hi : i < n) : i / b < ceilDiv n b := by
  cases n with
  | zero => exact absurd hi (Nat.not_lt_zero i)
  | succ n =>
      rw [ceilDiv_succ n b]
      exact Nat.lt_succ_of_le (Nat.div_le_div_right (Nat.le_of_lt_succ hi))

theorem ceilDiv_le_succ_div (hi : n ≤ i) : ceilDiv n b ≤ i / b + 1 := by
  cases n with
  | zero =>
      rw [ceilDiv_zero]
      exact Nat.zero_le _
  | succ n =>
      rw [ceilDiv_succ n b]
      exact Nat.succ_le_succ (Nat.div_le_div_right (Nat.le_of_succ_le hi))

theorem ceilDiv_eq_self_iff (hb : 0 < b) : ceilDiv n b = n ↔ n ≤ 1 ∨ b = 1 := by
  cases n with
  | zero => exact iff_of_true (ceilDiv_zero b) (.inl (Nat.zero_le 1))
  | succ n =>
      rw [ceilDiv_succ n b, Nat.succ_inj, Nat.div_eq_self]
      omega

theorem mod_ne_of_div_eq (hij : i ≠ j) (hdiv : i / b = j / b) : i % b ≠ j % b := by
  intro hmod
  apply hij
  rw [← Nat.div_add_mod i b, ← Nat.div_add_mod j b, hdiv, hmod]

theorem succ_div_of_last (hb : 0 < b) (hi : i % b = b - 1) : (i + 1) / b = i / b + 1 := by
  rw [Nat.succ_div, if_pos]
  apply Nat.dvd_of_mod_eq_zero
  rw [Nat.add_mod, hi]
  rcases Nat.eq_or_lt_of_le hb with rfl | hb
  · exact Nat.mod_one _
  · rw [Nat.mod_eq_of_lt (show 1 < b from hb), Nat.sub_add_cancel hb.le, Nat.mod_self]

theorem succ_div_of_not_last (hb : 0 < b) (hi : i % b ≠ b - 1) : (i + 1) / b = i / b := by
  rw [Nat.succ_div, if_neg, Nat.add_zero]
  intro hdvd
  have hmod := Nat.mod_eq_zero_of_dvd hdvd
  have hlt := Nat.mod_lt i hb
  rw [← Nat.div_add_mod i b, Nat.add_assoc, Nat.mul_add_mod, Nat.mod_eq_of_lt (by omega)] at hmod
  exact absurd hmod (Nat.succ_ne_zero _)

end Arithmetic

section Buckets

variable {b : ℕ} {buckets added : List (ℕ × (ℕ → α))} {s : List α} {x : ℕ × (ℕ → α)} {a : α}

/-- The elements of the sequence are in the buckets, in this order. -/
def Stored (b : ℕ) (buckets : List (ℕ × (ℕ → α))) (s : List α) : Prop :=
  ∀ i x, i < s.length → buckets[i / b]? = some x → s[i]? = some (x.2 (i % b))

theorem Stored.write (h : Stored b buckets s) {i : ℕ} (hx : buckets[i / b]? = some x) {t : List α}
    (ha : t[i]? = some a) (hother : ∀ j < t.length, j ≠ i → j < s.length ∧ t[j]? = s[j]?) :
    Stored b (buckets.set (i / b) (x.1, Function.update x.2 (i % b) a)) t := by
  intro j y hj hy
  have hib := (List.getElem?_eq_some_iff.mp hx).1
  by_cases hij : j = i
  · subst hij
    rw [List.getElem?_set_self hib] at hy
    have hwritten : Function.update x.2 (j % b) a (j % b) = a := Function.update_self ..
    rw [ha, ← Option.some.inj hy]
    exact congrArg some hwritten.symm
  · obtain ⟨hlength, hsame⟩ := hother j hj hij
    rw [hsame]
    by_cases hdiv : i / b = j / b
    · rw [← hdiv, List.getElem?_set_self hib] at hy
      have hkept : Function.update x.2 (i % b) a (j % b) = x.2 (j % b) :=
        Function.update_of_ne (mod_ne_of_div_eq hij hdiv.symm) ..
      rw [h j x hlength (hdiv ▸ hx), ← Option.some.inj hy]
      exact congrArg some hkept.symm
    · rw [List.getElem?_set_ne hdiv] at hy
      exact h j y hlength hy

theorem Stored.set (h : Stored b buckets s) {i : ℕ} (hi : i < s.length)
    (hx : buckets[i / b]? = some x) (a : α) :
    Stored b (buckets.set (i / b) (x.1, Function.update x.2 (i % b) a)) (s.set i a) := by
  refine h.write hx (List.getElem?_set_self hi) fun j hj hji => ?_
  rw [List.length_set] at hj
  exact ⟨hj, List.getElem?_set_ne hji.symm⟩

theorem Stored.concat (h : Stored b buckets s) (hx : buckets[s.length / b]? = some x) (a : α) :
    Stored b (buckets.set (s.length / b) (x.1, Function.update x.2 (s.length % b) a))
      (s ++ [a]) := by
  refine h.write hx List.getElem?_concat_length fun j hj hne => ?_
  rw [List.length_append, List.length_singleton] at hj
  have hlt : j < s.length := Nat.lt_of_le_of_ne (Nat.le_of_lt_succ hj) hne
  exact ⟨hlt, List.getElem?_append_left hlt⟩

theorem Stored.resize {zero : α} (h : Stored b buckets s) {count size : ℕ}
    (hlength : ∀ i < s.length, i / b < buckets.length) (hcount : ∀ i < size, i / b < count)
    (hadded : ∀ y ∈ added, y.2 = fun _ => zero)
    (hblank : ∀ i x, i < size → s.length ≤ i → buckets[i / b]? = some x → x.2 (i % b) = zero) :
    Stored b (buckets.take count ++ added)
      (s.take size ++ List.replicate (size - s.length) zero) := by
  intro i y hi hy
  rw [List.length_append, List.length_take, List.length_replicate] at hi
  have hsize : i < size := by omega
  rw [List.getElem?_append, List.length_take] at hy ⊢
  split
  next hold =>
    have hlt := Nat.lt_of_lt_of_le hold (Nat.min_le_right ..)
    rw [if_pos (Nat.lt_min.mpr ⟨hcount i hsize, hlength i hlt⟩),
      List.getElem?_take_of_lt (hcount i hsize)] at hy
    rw [List.getElem?_take_of_lt hsize]
    exact h i y hlt hy
  next hnew =>
    rw [List.getElem?_replicate, if_pos (by omega)]
    refine congrArg some ?_
    split at hy
    · rw [List.getElem?_take_of_lt (hcount i hsize)] at hy
      exact (hblank i y hsize (by omega) hy).symm
    · rw [hadded y (List.mem_of_getElem? hy)]

end Buckets

/-- The list is the sequence `s` in these buckets. -/
structure Holds (l : UnrolledList α) (s : List α) (buckets : List (ℕ × (ℕ → α))) : Prop where
  size : l.size = s.length
  positive : 0 < l.bucketElements
  held : Held l.entries buckets
  length : buckets.length = ceilDiv s.length l.bucketElements
  stored : Stored l.bucketElements buckets s

section Steps

variable {l : UnrolledList α} {s : List α} {buckets : List (ℕ × (ℕ → α))} {zero : α}

theorem holds_init (element : ℕ → ℕ → α) (bucketElements : ℕ) :
    Holds (init element bucketElements) [] [] where
  size := rfl
  positive := by
    unfold init
    dsimp only
    split
    · exact Nat.succ_pos 15
    · exact Nat.pos_of_ne_zero ‹_›
  held := held_create element
  length := (ceilDiv_zero _).symm
  stored _ _ h := absurd h (Nat.not_lt_zero _)

theorem Holds.exists_bucket (h : Holds l s buckets) {i : ℕ} (hi : i < s.length) :
    ∃ x, buckets[i / l.bucketElements]? = some x ∧
      s[i]? = some (l.entries.element x.1 (i % l.bucketElements)) := by
  have hlt : i / l.bucketElements < buckets.length := by
    rw [h.length]
    exact div_lt_ceilDiv hi
  refine ⟨buckets[i / l.bucketElements], List.getElem?_eq_getElem hlt, ?_⟩
  rw [h.held.represents.element _ (List.getElem_mem hlt)]
  exact h.stored i _ hi (List.getElem?_eq_getElem hlt)

theorem back_eq {entries : LinkedList (ℕ → α)} (h : Held entries buckets) :
    entries.back = (buckets[buckets.length - 1]?).map Prod.fst := by
  rw [h.represents.linked.tail_eq, List.getLast?_map, List.getLast?_eq_getElem?]

theorem Holds.findBucket_eq_iff (h : Holds l s buckets) {i : ℕ} (hi : i < s.length) :
    l.findBucket i = (buckets[i / l.bucketElements]?).map Prod.fst ↔ l.Found i := by
  have hlinked := h.held.represents.linked
  have hlt : i / l.bucketElements < buckets.length := by
    rw [h.length]
    exact div_lt_ceilDiv hi
  have hle := Nat.div_le_self i l.bucketElements
  have hone : l.bucketElements = 1 → i / l.bucketElements = i := fun heq => by
    rw [heq, Nat.div_one]
  have hfull := ceilDiv_eq_self_iff (n := s.length) h.positive
  rw [← h.length, ← h.size] at hfull
  rw [← h.size] at hi
  rw [← List.getElem?_map]
  unfold findBucket Found
  dsimp only
  generalize i / l.bucketElements = bucketIndex at *
  have hmap : bucketIndex < (buckets.map Prod.fst).length := by
    rw [List.length_map]
    exact hlt
  split
  next hleft =>
    rw [hlinked.iterate_next, List.getElem?_inj (Nat.lt_of_le_of_lt (Nat.sub_le ..) hmap)
      hlinked.nodup]
    constructor
    · intro heq
      exact .inl (by omega)
    · rintro (hzero | ⟨heq, hhalf⟩)
      · omega
      · exact absurd (hone heq) (by omega)
  next hright =>
    -- the walk makes as many rounds as there are elements behind, so these have to be the buckets
    have hfound : (bucketIndex = 0 ∨ l.bucketElements = 1 ∧ l.size / 2 ≤ i) ↔
        buckets.length = l.size := by
      rw [hfull]
      constructor
      · rintro (hzero | ⟨heq, -⟩)
        · exact .inl (by omega)
        · exact .inr heq
      · rintro (hsize | heq)
        · exact .inl (by omega)
        · exact .inr ⟨heq, by have := hone heq; omega⟩
    rw [hfound, hlinked.iterate_prev]
    by_cases hrounds : l.size - 1 - bucketIndex < (buckets.map Prod.fst).length
    · rw [List.getElem?_reverse hrounds, List.getElem?_inj (by omega) hlinked.nodup]
      rw [List.length_map] at hrounds ⊢
      omega
    · rw [List.getElem?_eq_none (by rw [List.length_reverse]; omega), List.getElem?_eq_getElem hmap]
      rw [List.length_map] at hrounds
      exact iff_of_false nofun (by omega)

theorem Holds.get (h : Holds l s buckets) {index : ℕ} (hserved : l.Served zero (.get index)) :
    l.get index = some s[index]? := by
  unfold UnrolledList.get
  split
  next hout => rw [List.getElem?_eq_none (h.size ▸ hout)]
  next hin =>
    have hlt := Nat.lt_of_not_le hin
    obtain ⟨x, hx, hget⟩ := h.exists_bucket (h.size ▸ hlt)
    rw [(h.findBucket_eq_iff (h.size ▸ hlt)).mpr (hserved hlt), hx, hget]
    rfl

theorem held_write (h : Held l.entries buckets) {k : ℕ} {x : ℕ × (ℕ → α)}
    (hx : buckets[k]? = some x) (offset : ℕ) (a : α) :
    Held (l.write x.1 offset a).entries
      (buckets.set k (x.1, Function.update x.2 offset a)) := by
  rw [← h.represents.element x (List.mem_of_getElem? hx)]
  exact h.setElement hx _

theorem Holds.set (h : Holds l s buckets) {index : ℕ} {a : α}
    (hserved : l.Served zero (.set index a)) :
    ∃ l' buckets', l.set index a = some (l', decide (index < s.length)) ∧
      Holds l' (s.set index a) buckets' := by
  unfold UnrolledList.set
  split
  next hout =>
    have hle : s.length ≤ index := h.size ▸ hout
    refine ⟨l, buckets, ?_, ?_⟩
    · rw [decide_eq_false (Nat.not_lt.mpr hle)]
    · rwa [List.set_eq_of_length_le hle]
  next hin =>
    have hlt := Nat.lt_of_not_le hin
    have hlt' : index < s.length := h.size ▸ hlt
    obtain ⟨x, hx, -⟩ := h.exists_bucket hlt'
    rw [(h.findBucket_eq_iff hlt').mpr (hserved hlt), hx, decide_eq_true hlt']
    refine ⟨_, _, rfl, ⟨?_, h.positive, held_write h.held hx _ a, ?_, h.stored.set hlt' hx a⟩⟩
    · rw [List.length_set]
      exact h.size
    · rw [List.length_set, List.length_set]
      exact h.length

theorem Holds.resized (h : Holds l s buckets) {size : ℕ} {added : List (ℕ × (ℕ → α))}
    (hadded : added.map Prod.snd =
      List.replicate (ceilDiv size l.bucketElements - buckets.length) fun _ => zero) :
    (buckets.take (ceilDiv size l.bucketElements) ++ added).length =
        ceilDiv size l.bucketElements ∧
      ∀ n ≤ size, (∀ i x, i < n → s.length ≤ i → buckets[i / l.bucketElements]? = some x →
          x.2 (i % l.bucketElements) = zero) →
        Stored l.bucketElements (buckets.take (ceilDiv size l.bucketElements) ++ added)
          (s.take n ++ List.replicate (n - s.length) zero) := by
  have hlength := congrArg List.length hadded
  rw [List.length_map, List.length_replicate] at hlength
  refine ⟨?_, fun n hn hblank => ?_⟩
  · rw [List.length_append, List.length_take, hlength]
    omega
  · refine h.stored.resize (fun i hi => ?_) (fun i hi => ?_) (fun y hy => ?_) hblank
    · rw [h.length]
      exact div_lt_ceilDiv hi
    · exact div_lt_ceilDiv (Nat.lt_of_lt_of_le hi hn)
    · exact List.eq_of_mem_replicate (hadded ▸ List.mem_map_of_mem hy)

theorem resizeEntries_eq (l : UnrolledList α) (bucketSize : ℕ) :
    (l.resizeEntries zero true bucketSize).1 =
      { l with entries := (l.resizeEntries zero true bucketSize).1.entries } := by
  unfold UnrolledList.resizeEntries
  split <;> rfl

theorem Holds.resizeEntries (h : Holds l s buckets) (zero : α) (size : ℕ) :
    ∃ added, Held (l.resizeEntries zero true (ceilDiv size l.bucketElements)).1.entries
        (buckets.take (ceilDiv size l.bucketElements) ++ added) ∧
      (l.resizeEntries zero true (ceilDiv size l.bucketElements)).2 = true ∧
      added.map Prod.snd =
        List.replicate (ceilDiv size l.bucketElements - buckets.length) fun _ => zero := by
  unfold UnrolledList.resizeEntries
  split
  next => exact h.held.resize (fun _ => zero) _
  next heq =>
    rw [not_not] at heq
    rw [heq, h.held.represents.size, List.take_length]
    exact ⟨[], by rw [List.append_nil]; exact h.held, rfl, by rw [Nat.sub_self]; rfl⟩

theorem Holds.resize (h : Holds l s buckets) {size : ℕ} (hserved : l.Served zero (.resize size)) :
    ∃ buckets', (l.resize zero true size).2 = true ∧
      Holds (l.resize zero true size).1
        (s.take size ++ List.replicate (size - s.length) zero) buckets' := by
  obtain ⟨added, hheld, hsuccess, hadded⟩ :=
    h.held.resize (fun _ => zero) (ceilDiv size l.bucketElements)
  obtain ⟨hlength, hstored⟩ := h.resized hadded
  have hsize : (s.take size ++ List.replicate (size - s.length) zero).length = size := by
    rw [List.length_append, List.length_take, List.length_replicate]
    omega
  unfold UnrolledList.resize
  dsimp only
  rw [if_pos hsuccess]
  refine ⟨_, rfl, ⟨hsize.symm, h.positive, hheld, hsize.symm ▸ hlength, ?_⟩⟩
  refine hstored size (Nat.le_refl size) fun i x hi hle hx => ?_
  -- the elements behind the last one are in the last bucket
  have hlt := (List.getElem?_eq_some_iff.mp hx).1
  have hlast := ceilDiv_le_succ_div (b := l.bucketElements) hle
  rw [← h.length] at hlast
  have hindex : i / l.bucketElements = buckets.length - 1 :=
    Nat.le_antisymm (Nat.le_sub_one_of_lt hlt) (Nat.sub_le_of_le_add hlast)
  have hback : x.1 ∈ l.entries.back := by
    rw [back_eq h.held, ← hindex, hx]
    rfl
  rw [← h.held.represents.element x (List.mem_of_getElem? hx)]
  exact hserved x.1 hback i hi (h.size ▸ hle) (h.held.represents.size ▸ hlt)

theorem Holds.pushBack (h : Holds l s buckets) {a : α} (hserved : l.Served zero (.pushBack a)) :
    ∃ l' buckets', l.pushBack zero true a = some (l', true) ∧ Holds l' (s ++ [a]) buckets' := by
  obtain ⟨added, hheld, hsuccess, hadded⟩ := h.resizeEntries zero (s.length + 1)
  obtain ⟨hlength, hstored⟩ := h.resized hadded
  have hkept := hstored s.length (Nat.le_succ _) fun i x hi hle _ => absurd hi (Nat.not_lt.mpr hle)
  rw [List.take_length, Nat.sub_self, List.replicate_zero, List.append_nil] at hkept
  generalize buckets.take (ceilDiv (s.length + 1) l.bucketElements) ++ added = buckets' at *
  rw [ceilDiv_succ] at hlength
  obtain ⟨x, hx⟩ : ∃ x, buckets'[s.length / l.bucketElements]? = some x :=
    ⟨_, List.getElem?_eq_getElem (by rw [hlength]; exact Nat.lt_succ_self _)⟩
  have hnewSize : (l.size + 1) % 2 ^ 64 = s.length + 1 := by
    rw [← h.size]
    exact Nat.mod_eq_of_lt hserved
  unfold UnrolledList.pushBack
  rw [hnewSize]
  dsimp only
  rw [if_pos hsuccess, back_eq hheld, hlength, Nat.add_sub_cancel, hx, resizeEntries_eq]
  refine ⟨_, _, rfl, ⟨?_, h.positive, held_write hheld hx _ a, ?_, ?_⟩⟩
  · rw [List.length_append, List.length_singleton]
  · rw [List.length_set, List.length_append, List.length_singleton, hlength]
    exact (ceilDiv_succ _ _).symm
  · rw [h.size]
    exact hkept.concat hx a

theorem Holds.popBack (h : Holds l s buckets) (zero : α) :
    ∃ l' buckets', l.popBack zero true = some (l', s.getLast?) ∧ Holds l' s.dropLast buckets' := by
  unfold UnrolledList.popBack
  split
  next hempty =>
    obtain rfl := List.length_eq_zero_iff.mp (h.size ▸ hempty)
    exact ⟨l, buckets, rfl, h⟩
  next hsome =>
    obtain ⟨n, hn⟩ : ∃ n, s.length = n + 1 := Nat.exists_eq_succ_of_ne_zero (h.size ▸ hsome)
    have hsize : l.size - 1 = n := by rw [h.size, hn, Nat.add_sub_cancel]
    obtain ⟨x, hx, hget⟩ := h.exists_bucket (i := n) (by rw [hn]; exact Nat.lt_succ_self n)
    have hback : l.entries.back = some x.1 := by
      rw [back_eq h.held, h.length, hn, ceilDiv_succ, Nat.add_sub_cancel, hx]
      rfl
    obtain ⟨added, hheld, hsuccess, hadded⟩ := h.resizeEntries zero n
    obtain ⟨hlength, hstored⟩ := h.resized hadded
    have hkept := hstored n (Nat.le_refl n) fun i x hi hle _ => by omega
    rw [hn, Nat.sub_eq_zero_of_le (Nat.le_succ n), List.replicate_zero, List.append_nil] at hkept
    have hdrop : s.dropLast = s.take n := by rw [List.dropLast_eq_take, hn, Nat.add_sub_cancel]
    rw [hback, Option.map_some, hsize]
    dsimp only
    rw [if_pos hsuccess, resizeEntries_eq]
    rw [List.getLast?_eq_getElem?, hn, Nat.add_sub_cancel, hget, hdrop]
    have hlast : (s.take n).length = n := by
      rw [List.length_take, hn]
      exact Nat.min_eq_left (Nat.le_succ n)
    exact ⟨_, _, rfl, ⟨hlast.symm, h.positive, hheld, hlast.symm ▸ hlength, hkept⟩⟩

theorem Holds.iteratorNext (h : Holds l s buckets) {it : UnrolledIterator}
    (hentry : it.entry = (buckets[it.index / l.bucketElements]?).map Prod.fst) :
    ∃ it', l.iteratorNext it = some (it', s[it.index]?) ∧
      it'.entry = (buckets[it'.index / l.bucketElements]?).map Prod.fst ∧
      it'.index = if it.index < s.length then it.index + 1 else it.index := by
  unfold UnrolledList.iteratorNext
  split
  next hend =>
    have hle : s.length ≤ it.index := h.size ▸ hend
    rw [List.getElem?_eq_none hle, if_neg (Nat.not_lt.mpr hle)]
    exact ⟨it, rfl, hentry, rfl⟩
  next hmore =>
    have hlt : it.index < s.length := h.size ▸ Nat.lt_of_not_le hmore
    obtain ⟨x, hx, hget⟩ := h.exists_bucket hlt
    rw [hentry, hx, hget, if_pos hlt]
    refine ⟨_, rfl, ?_, rfl⟩
    dsimp only
    split
    next hlast =>
      rw [succ_div_of_last h.positive hlast, ← List.getElem?_map]
      refine h.held.represents.linked.next_getElem ?_
      rw [List.getElem?_map, hx]
      rfl
    next hinside =>
      rw [succ_div_of_not_last h.positive hinside, hx]
      rfl

theorem Holds.iterateFrom (h : Holds l s buckets) (count : ℕ) {it : UnrolledIterator}
    (hentry : it.entry = (buckets[it.index / l.bucketElements]?).map Prod.fst) :
    l.iterateFrom count it = some ((List.range count).map fun k => s[it.index + k]?) := by
  induction count generalizing it with
  | zero => rfl
  | succ count ih =>
      obtain ⟨it', hnext, hentry', hindex⟩ := h.iteratorNext hentry
      rw [UnrolledList.iterateFrom, hnext]
      dsimp only
      rw [ih hentry', Option.map_some, List.range_succ_eq_map, List.map_cons, List.map_map]
      refine congrArg some (congrArg (List.cons _) (List.map_congr_left fun k _ => ?_))
      rw [hindex, Function.comp_apply]
      split
      next => rw [Nat.add_assoc, Nat.add_comm 1 k]
      next hend =>
        rw [List.getElem?_eq_none (by omega), List.getElem?_eq_none (by omega)]

theorem Holds.iterate (h : Holds l s buckets) (count : ℕ) :
    l.iterateFrom count l.iteratorBegin = some ((List.range count).map (s[·]?)) := by
  have hbegin : l.iteratorBegin.entry =
      (buckets[l.iteratorBegin.index / l.bucketElements]?).map Prod.fst := by
    unfold iteratorBegin
    dsimp only
    rw [Nat.zero_div]
    split
    next hempty =>
      have hnil := h.length
      rw [← h.size, hempty, ceilDiv_zero, List.length_eq_zero_iff] at hnil
      rw [hnil]
      rfl
    next =>
      rw [h.held.represents.linked.head_eq, List.head?_eq_getElem?, List.getElem?_map]
  rw [h.iterateFrom count hbegin]
  refine congrArg some (List.map_congr_left fun k _ => ?_)
  exact congrArg (s[·]?) (Nat.zero_add k)

theorem Holds.step (h : Holds l s buckets) {call : UnrolledCall α} (hserved : l.Served zero call) :
    (∃ buckets', Holds (l.step zero call).1 (actOn zero s call).1 buckets') ∧
      (l.step zero call).2 = (actOn zero s call).2 := by
  cases call with
  | pushBack a =>
      obtain ⟨l', buckets', hpush, hholds⟩ := h.pushBack hserved
      rw [UnrolledList.step, hpush]
      exact ⟨⟨buckets', hholds⟩, rfl⟩
  | popBack =>
      obtain ⟨l', buckets', hpop, hholds⟩ := h.popBack zero
      rw [UnrolledList.step, hpop]
      exact ⟨⟨buckets', hholds⟩, rfl⟩
  | resize size =>
      obtain ⟨buckets', hsuccess, hholds⟩ := h.resize hserved
      exact ⟨⟨buckets', hholds⟩,
        congrArg (fun success => some (UnrolledAnswer.success success)) hsuccess⟩
  | set index a =>
      obtain ⟨l', buckets', hset, hholds⟩ := h.set hserved
      rw [UnrolledList.step, hset]
      exact ⟨⟨buckets', hholds⟩, rfl⟩
  | get index =>
      refine ⟨⟨buckets, h⟩, ?_⟩
      rw [UnrolledList.step, h.get hserved]
      rfl
  | iterate count =>
      refine ⟨⟨buckets, h⟩, ?_⟩
      rw [UnrolledList.step, h.iterate count]
      rfl

end Steps

/-- In every run of calls that are served, with buckets of every size and whatever the memory holds
at first, the list answers as a sequence does. -/
theorem unrolledList_run (zero : α) (element : ℕ → ℕ → α) (bucketElements : ℕ)
    (calls : List (UnrolledCall α))
    (hserved : Along (next (step zero)) (Served zero) (init element bucketElements) calls) :
    outputs (step zero) (init element bucketElements) calls = outputs (actOn zero) [] calls := by
  have hrun := simulation_run (f := step zero) (g := actOn zero) (P := Served zero)
    (R := fun l s => ∃ buckets, Holds l s buckets)
    (fun l s call hholds hcall => by
      obtain ⟨buckets, h⟩ := hholds
      exact h.step hcall)
    ⟨[], holds_init element bucketElements⟩ hserved
  exact hrun.2

/-- Three elements in buckets of two, which are changed and read in the first bucket. -/
theorem unrolledList_run_firstBucket :
    outputs (step 0) (init (fun _ _ => 0) 2)
        [.pushBack 10, .pushBack 11, .pushBack 12, .set 1 13, .get 1, .iterate 4] =
      outputs (actOn 0) []
        [.pushBack 10, .pushBack 11, .pushBack 12, .set 1 13, .get 1, .iterate 4] :=
  unrolledList_run 0 _ 2 _ (by decide)

/-- A list that grows inside its last bucket has no zero there. -/
example : outputs (step 0) (init (fun _ _ => 0) 2)
    [.pushBack 10, .pushBack 11, .popBack, .resize 2, .iterate 2] =
      [some (.success true), some (.success true), some (.element (some 11)), some (.success true),
        some (.met [some 10, some 11])] := by decide

/-- The last of three elements in buckets of two is looked for in the first bucket. -/
theorem not_unrolledList_lastOfThree :
    ¬ ∀ (element : ℕ → ℕ → ℕ) (bucketElements : ℕ) (calls : List (UnrolledCall ℕ)),
      outputs (step 0) (init element bucketElements) calls = outputs (actOn 0) [] calls := by
  intro h
  have houtputs := h (fun _ _ => 0) 2 [.pushBack 10, .pushBack 11, .pushBack 12, .get 2]
  revert houtputs
  decide

end UnrolledList

end Utils

end PomeloUdp
