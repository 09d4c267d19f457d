import PomeloUdp.Utils.MapGrowth

/-!
# The hash map against the finite map

`Represents` relates a map of the code to the finite map it stands for: every
entry is in the bucket of its hash, no bucket holds a key twice, the lookups
agree and the size is the number of keys. Every operation keeps it, a growing
`set` provided that `GrowthKeepsPlaces` holds before it; without that condition
some key of the new finite map is no longer found.
-/

namespace PomeloUdp

namespace Utils

open Machine

namespace Map

variable {K V : Type*}

section Lookup

variable (f : KeyFunctions K)

/-- The search of `pomelo_map_find_entry` in one bucket. -/
def findIn (k : K) (l : List (Entry K V)) : Option (Entry K V) :=
  l.find? (fun e => f.compare e.key k)

/-- No two entries of a list have keys that compare equal. -/
def Distinct (l : List (Entry K V)) : Prop :=
  l.Pairwise (fun a b => f.compare a.key b.key = false)

variable {f}

@[simp] theorem findIn_nil (k : K) : findIn f k ([] : List (Entry K V)) = none := rfl

theorem findIn_cons (k : K) (e : Entry K V) (l : List (Entry K V)) :
    findIn f k (e :: l) = if f.compare e.key k then some e else findIn f k l := by
  by_cases h : f.compare e.key k <;> simp [findIn, h]

theorem findIn_eq_none_iff {k : K} {l : List (Entry K V)} :
    findIn f k l = none ↔ ∀ e ∈ l, f.compare e.key k = false := by
  simp [findIn, List.find?_eq_none]

theorem findIn_append (k : K) (l l' : List (Entry K V)) :
    findIn f k (l ++ l') = (findIn f k l).or (findIn f k l') := by
  simp [findIn, List.find?_append]

theorem findIn_congr {k k' : K} (h : f.compare k k' = true) (l : List (Entry K V)) :
    findIn f k l = findIn f k' l := by
  have hp : (fun e : Entry K V => f.compare e.key k) = fun e => f.compare e.key k' := by
    funext e
    exact f.compare_congr h e.key
  rw [findIn, findIn, hp]

theorem findIn_eraseP {k : K} {l : List (Entry K V)} (hl : Distinct f l) (k' : K) :
    findIn f k' (l.eraseP (fun e => f.compare e.key k)) =
      if f.compare k k' then none else findIn f k' l := by
  induction l with
  | nil => simp
  | cons e l ih =>
      obtain ⟨he, hl⟩ := List.pairwise_cons.mp hl
      by_cases hek : f.compare e.key k
      · rw [List.eraseP_cons_of_pos (p := fun e : Entry K V => f.compare e.key k) hek]
        by_cases hk : f.compare k k'
        · rw [if_pos hk, findIn_eq_none_iff]
          intro a ha
          have hae : f.compare a.key e.key = false := by
            rw [f.compare_comm]
            exact he a ha
          rw [← f.compare_congr hk, ← f.compare_congr hek]
          exact hae
        · have hek' : f.compare e.key k' = false := by
            rw [f.compare_comm, f.compare_congr hek, f.compare_comm]
            simpa using hk
          simp [hk, findIn_cons, hek']
      · rw [List.eraseP_cons_of_neg (p := fun e : Entry K V => f.compare e.key k) hek,
          findIn_cons, findIn_cons, ih hl]
        by_cases hk : f.compare k k'
        · have hek' : f.compare e.key k' = false := by
            rw [← f.compare_congr hk]
            simpa using hek
          simp [hk, hek']
        · simp [hk]

theorem findIn_write {k : K} {v : V} (l : List (Entry K V)) (k' : K) :
    (findIn f k' (l.replaceF (fun e => if f.compare e.key k then some { e with value := v }
      else none))).map Entry.value =
      if f.compare k k' ∧ (findIn f k l).isSome then some v
      else (findIn f k' l).map Entry.value := by
  induction l with
  | nil => simp
  | cons e l ih =>
      by_cases hek : f.compare e.key k
      · by_cases hk : f.compare k k'
        · have hek' : f.compare e.key k' := by rw [← f.compare_congr hk, hek]
          simp [List.replaceF, hek, findIn_cons, hek', hk]
        · have hek' : f.compare e.key k' = false := by
            rw [f.compare_comm, f.compare_congr hek, f.compare_comm]
            simpa using hk
          simp [List.replaceF, hek, findIn_cons, hek', hk]
      · by_cases hk : f.compare k k'
        · have hek' : f.compare e.key k' = false := by
            rw [← f.compare_congr hk]
            simpa using hek
          simp [List.replaceF, hek, findIn_cons, hek', ih]
        · by_cases hek' : f.compare e.key k'
          · simp [List.replaceF, hek, findIn_cons, hek', hk]
          · simp [List.replaceF, hek, findIn_cons, hek', ih]

theorem findIn_key {l : List (Entry K V)} (hl : Distinct f l) {e : Entry K V} (he : e ∈ l) :
    findIn f e.key l = some e := by
  induction l with
  | nil => cases he
  | cons a l ih =>
      obtain ⟨ha, hl⟩ := List.pairwise_cons.mp hl
      rw [findIn_cons]
      rcases List.mem_cons.mp he with rfl | he
      · rw [if_pos (f.compare_refl _)]
      · rw [if_neg (by simp [ha e he])]
        exact ih hl he

theorem distinct_append_singleton {l : List (Entry K V)} {e : Entry K V}
    (hl : Distinct f l) (he : findIn f e.key l = none) : Distinct f (l ++ [e]) := by
  rw [Distinct, List.pairwise_append]
  refine ⟨hl, List.pairwise_singleton _ _, ?_⟩
  intro a ha b hb
  rw [List.mem_singleton.mp hb]
  exact findIn_eq_none_iff.mp he a ha

theorem replaceF_value_keys {p : Entry K V → Bool} {v : V} (l : List (Entry K V)) :
    (l.replaceF (fun e => if p e then some { e with value := v } else none)).map Entry.key =
      l.map Entry.key := by
  induction l with
  | nil => rfl
  | cons e l ih => by_cases h : p e <;> simp [List.replaceF, h, ih]

theorem distinct_iff_keys {l : List (Entry K V)} :
    Distinct f l ↔ (l.map Entry.key).Pairwise (fun a b => f.compare a b = false) := by
  rw [Distinct, List.pairwise_map]

theorem findIn_leftover {nbuckets i : ℕ} {k : K} (hk : f.hash k % nbuckets = i)
    (l : List (Entry K V)) :
    findIn f k (leftover f nbuckets i l) = findIn f k l := by
  induction l with
  | nil => rfl
  | cons e l ih =>
      by_cases he : f.hash e.key % nbuckets = i
      · have hcons : leftover f nbuckets i (e :: l) = e :: leftover f nbuckets i l := by
          simp [leftover, he]
        rw [hcons, findIn_cons, findIn_cons, ih]
      · have hcons : leftover f nbuckets i (e :: l) = l := by simp [leftover, he]
        have hek : f.compare e.key k = false := by
          by_contra hcompare
          rw [Bool.not_eq_false] at hcompare
          exact he (by rw [f.hash_eq _ _ hcompare, hk])
        rw [hcons, findIn_cons, hek]
        simp

theorem findIn_movers {nbuckets i : ℕ} {k : K} (hk : f.hash k % nbuckets ≠ i)
    (l : List (Entry K V)) :
    findIn f k (movers f nbuckets i l) = findIn f k l := by
  rw [findIn, movers, List.find?_filter, findIn]
  congr 1
  funext e
  by_cases hcompare : f.compare e.key k
  · have he : f.hash e.key % nbuckets ≠ i := by rwa [f.hash_eq _ _ hcompare]
    simp [hcompare, he]
  · simp [hcompare]

end Lookup

section Representation

variable (o : MapOptions K)

/-- Every entry is in the bucket of its hash and no bucket holds a key twice. -/
structure Valid (m : Map K V) : Prop where
  pos : 0 < m.nbuckets
  placed : ∀ i < m.nbuckets, ∀ e ∈ (m.buckets i).elements, o.hash e.key % m.nbuckets = i
  distinct : ∀ i < m.nbuckets, Distinct o.toKeyFunctions (m.buckets i).elements

/-- The map of the code stands for the finite map `s`. -/
structure Represents (m : Map K V) (s : SpecMap o.toKeyFunctions V) : Prop
    extends Valid o m where
  lookup : ∀ k, get o m k = s.lookup (o.key k)
  size : m.size = s.keys.card

variable {o}

theorem Valid.index_lt {m : Map K V} (h : Valid o m) (k : K) :
    o.hash k % m.nbuckets < m.nbuckets := Nat.mod_lt _ h.pos

theorem Valid.findEntry_eq {m : Map K V} (h : Valid o m) (k : K) :
    findEntry o m k =
      findIn o.toKeyFunctions k (m.buckets (o.hash k % m.nbuckets)).elements := by
  rw [findEntry, if_neg h.pos.ne']
  rfl

theorem Valid.findEntry_congr {m : Map K V} (h : Valid o m) {k k' : K}
    (hcompare : o.compare k k' = true) : findEntry o m k = findEntry o m k' := by
  rw [h.findEntry_eq, h.findEntry_eq, o.hash_eq _ _ hcompare, findIn_congr hcompare]

theorem size_setEntry_of_none {m : Map K V} (h : Valid o m) {k : K} {v : V}
    (hk : findEntry o m k = none) : (setEntry o m k v).1.size = m.size + 1 := by
  rw [h.findEntry_eq] at hk
  rw [setEntry, show (m.buckets (o.hash k % m.nbuckets)).elements.find? _ = none from hk]
  dsimp only
  split
  · rw [resizeBuckets_size]
  · rfl

theorem Valid.get_of_mem {m : Map K V} (h : Valid o m) {i : ℕ} (hi : i < m.nbuckets)
    {e : Entry K V} (he : e ∈ (m.buckets i).elements) : get o m e.key = some e.value := by
  rw [get, h.findEntry_eq, h.placed i hi e he, findIn_key (h.distinct i hi) he]
  rfl

/-- The condition under which an operation keeps every entry where lookups
expect it. Only a `set` that grows the bucket array is concerned: no old bucket
may have two entries to move, and the new key must belong to the same bucket
before and after. -/
def GrowthKeepsPlaces (o : MapOptions K) (m : Map K V) : MapOp K V → Prop
  | .set k _ =>
      findEntry o m k = none → o.overLoad (m.size + 1) m.nbuckets = true →
        o.hash k % (m.nbuckets * 2) = o.hash k % m.nbuckets ∧
        ∀ i < m.nbuckets,
          (movers o.toKeyFunctions (m.nbuckets * 2) i (m.buckets i).elements).length ≤ 1
  | _ => True

instance decidableGrowthKeepsPlaces (o : MapOptions K) (m : Map K V) :
    ∀ op : MapOp K V, Decidable (GrowthKeepsPlaces o m op)
  | .set k _ => inferInstanceAs (Decidable (findEntry o m k = none →
      o.overLoad (m.size + 1) m.nbuckets = true →
        o.hash k % (m.nbuckets * 2) = o.hash k % m.nbuckets ∧
        ∀ i < m.nbuckets,
          (movers o.toKeyFunctions (m.nbuckets * 2) i (m.buckets i).elements).length ≤ 1))
  | .get _ | .has _ | .del _ | .clear => isTrue trivial

/-- The condition under which a growth moves no entry. The iterator of a redistribution fails an
assertion behind the first entry that it moves, where assertions are compiled in. -/
def GrowthMovesNothing (o : MapOptions K) (m : Map K V) : MapOp K V → Prop
  | .set k _ =>
      findEntry o m k = none → o.overLoad (m.size + 1) m.nbuckets = true →
        o.hash k % (m.nbuckets * 2) = o.hash k % m.nbuckets ∧
        ∀ i < m.nbuckets, movers o.toKeyFunctions (m.nbuckets * 2) i (m.buckets i).elements = []
  | _ => True

instance decidableGrowthMovesNothing (o : MapOptions K) (m : Map K V) :
    ∀ op : MapOp K V, Decidable (GrowthMovesNothing o m op)
  | .set k _ => inferInstanceAs (Decidable (findEntry o m k = none →
      o.overLoad (m.size + 1) m.nbuckets = true →
        o.hash k % (m.nbuckets * 2) = o.hash k % m.nbuckets ∧
        ∀ i < m.nbuckets, movers o.toKeyFunctions (m.nbuckets * 2) i (m.buckets i).elements = []))
  | .get _ | .has _ | .del _ | .clear => isTrue trivial

theorem GrowthMovesNothing.keepsPlaces {m : Map K V} {op : MapOp K V}
    (h : GrowthMovesNothing o m op) : GrowthKeepsPlaces o m op := by
  cases op with
  | set k v =>
      intro hk hload
      obtain ⟨hindex, hmovers⟩ := h hk hload
      refine ⟨hindex, fun i hi => ?_⟩
      rw [hmovers i hi]
      exact Nat.zero_le 1
  | _ => trivial

theorem nbuckets_le_step (m : Map K V) (op : MapOp K V) :
    m.nbuckets ≤ (step o m op).1.nbuckets := by
  cases op with
  | set k v =>
      simp only [step, setEntry]
      split
      · exact le_rfl
      · dsimp only
        split
        · by_cases hpos : 0 < m.nbuckets
          · rw [resizeBuckets_nbuckets o (by omega)]
            omega
          · omega
        · exact le_rfl
  | del k =>
      simp only [step, del]
      split <;> exact le_rfl
  | _ => exact le_rfl

section Few

variable {m : Map K V} {ops : List (MapOp K V)}

/-- The operation may add an entry. -/
def adds : MapOp K V → Bool
  | .set _ _ => true
  | _ => false

theorem size_step_le (m : Map K V) (op : MapOp K V) :
    (step o m op).1.size ≤ m.size + if adds op then 1 else 0 := by
  cases op with
  | set k v =>
      simp only [step, setEntry]
      split
      · exact Nat.le_succ _
      · dsimp only
        split
        · exact Nat.le_of_eq (congrArg (· + 1) (resizeBuckets_size o _ _))
        · exact le_rfl
  | del k =>
      simp only [step, del]
      split
      · exact le_rfl
      · exact Nat.sub_le ..
  | clear => exact Nat.zero_le _
  | _ => exact le_rfl

theorem nbuckets_le_run (m : Map K V) (ops : List (MapOp K V)) :
    m.nbuckets ≤ (run (next (step o)) m ops).nbuckets := by
  induction ops generalizing m with
  | nil => exact le_rfl
  | cons op ops ih => exact (nbuckets_le_step m op).trans (ih _)

theorem movesNothing_of_shut (m : Map K V) (hops : ops.countP adds = 0) :
    Along (next (step o)) (GrowthMovesNothing o) m ops := by
  induction ops generalizing m with
  | nil => trivial
  | cons op ops ih =>
      rw [List.countP_cons, Nat.add_eq_zero_iff] at hops
      refine ⟨?_, ih _ hops.1⟩
      cases op with
      | set k v => cases hops.2
      | _ => trivial

theorem movesNothing_of_few {limit buckets : ℕ}
    (hload : ∀ size nbuckets, size ≤ limit → buckets ≤ nbuckets → o.overLoad size nbuckets = false)
    (hbuckets : buckets ≤ m.nbuckets) (hfew : m.size + ops.countP adds ≤ limit) :
    Along (next (step o)) (GrowthMovesNothing o) m ops := by
  induction ops generalizing m with
  | nil => trivial
  | cons op ops ih =>
      have hsize := size_step_le (o := o) m op
      have hnext : (step o m op).1.size + ops.countP adds ≤ limit := by
        rw [List.countP_cons] at hfew
        omega
      refine ⟨?_, ih (hbuckets.trans (nbuckets_le_step m op)) hnext⟩
      cases op with
      | set k v =>
          rw [List.countP_cons_of_pos rfl] at hfew
          have hroom := hload (m.size + 1) m.nbuckets (by omega) hbuckets
          exact fun _ hover => absurd (hroom.symm.trans hover) Bool.false_ne_true
      | _ => trivial

theorem keepsPlaces_of_movesNothing (h : Along (next (step o)) (GrowthMovesNothing o) m ops) :
    Along (next (step o)) (GrowthKeepsPlaces o) m ops := by
  induction ops generalizing m with
  | nil => trivial
  | cons op ops ih => exact ⟨h.1.keepsPlaces, ih h.2⟩

end Few

theorem mod_double_ne {h n : ℕ} (hne : h % (n * 2) ≠ h % n) : h % (n * 2) = n + h % n :=
  (mod_double rfl).resolve_left hne

section Resize

variable {m : Map K V} (hm : Valid o m)
include hm

theorem Valid.resize_stay {k : K} (hk : o.hash k % (m.nbuckets * 2) = o.hash k % m.nbuckets) :
    ((resizeBuckets o m (m.nbuckets * 2)).buckets (o.hash k % (m.nbuckets * 2))).elements =
      leftover o.toKeyFunctions (m.nbuckets * 2) (o.hash k % m.nbuckets)
        (m.buckets (o.hash k % m.nbuckets)).elements := by
  rw [resizeBuckets_elements o hm.pos hm.placed, hk, if_pos (hm.index_lt k)]

theorem Valid.resize_move {k : K} (hk : o.hash k % (m.nbuckets * 2) ≠ o.hash k % m.nbuckets) :
    ((resizeBuckets o m (m.nbuckets * 2)).buckets (o.hash k % (m.nbuckets * 2))).elements =
      (movers o.toKeyFunctions (m.nbuckets * 2) (o.hash k % m.nbuckets)
        (m.buckets (o.hash k % m.nbuckets)).elements).take 1 := by
  have hlt := hm.index_lt k
  rw [resizeBuckets_elements o hm.pos hm.placed, mod_double_ne hk, if_neg (by omega),
    if_pos (by omega), Nat.add_sub_cancel_left]

theorem Valid.resize
    (hone : ∀ i < m.nbuckets,
      (movers o.toKeyFunctions (m.nbuckets * 2) i (m.buckets i).elements).length ≤ 1) :
    Valid o (resizeBuckets o m (m.nbuckets * 2)) := by
  have hpos := hm.pos
  have hn : (resizeBuckets o m (m.nbuckets * 2)).nbuckets = m.nbuckets * 2 :=
    resizeBuckets_nbuckets o (by omega)
  refine ⟨by omega, ?_, ?_⟩
  · intro j hj e he
    rw [hn] at hj ⊢
    rw [resizeBuckets_elements o hm.pos hm.placed] at he
    by_cases hjn : j < m.nbuckets
    · rw [if_pos hjn] at he
      exact hash_of_mem_leftover (hone j hjn) he
    · have hjn' : j - m.nbuckets < m.nbuckets := by omega
      rw [if_neg hjn, if_pos hjn'] at he
      obtain ⟨hmem, hne⟩ := mem_movers.mp (List.mem_of_mem_take he)
      have hold := hm.placed _ hjn' e hmem
      have := (mod_double hold).resolve_left hne
      omega
  · intro j hj
    rw [hn] at hj
    rw [resizeBuckets_elements o hm.pos hm.placed]
    by_cases hjn : j < m.nbuckets
    · rw [if_pos hjn]
      exact (hm.distinct j hjn).sublist (leftover_sublist _ _ _ _)
    · have hjn' : j - m.nbuckets < m.nbuckets := by omega
      rw [if_neg hjn, if_pos hjn']
      exact (hm.distinct _ hjn').sublist ((List.take_sublist _ _).trans List.filter_sublist)

theorem Valid.findEntry_resize
    (hone : ∀ i < m.nbuckets,
      (movers o.toKeyFunctions (m.nbuckets * 2) i (m.buckets i).elements).length ≤ 1)
    (k : K) :
    findEntry o (resizeBuckets o m (m.nbuckets * 2)) k = findEntry o m k := by
  have hpos := hm.pos
  have hn : (resizeBuckets o m (m.nbuckets * 2)).nbuckets = m.nbuckets * 2 :=
    resizeBuckets_nbuckets o (by omega)
  rw [(hm.resize hone).findEntry_eq, hn, hm.findEntry_eq]
  by_cases hk : o.hash k % (m.nbuckets * 2) = o.hash k % m.nbuckets
  · rw [hm.resize_stay hk, findIn_leftover hk]
  · rw [hm.resize_move hk, List.take_of_length_le (hone _ (hm.index_lt k)), findIn_movers hk]

end Resize

section Push

theorem Valid.push {m : Map K V} (hm : Valid o m) {k : K} (v : V)
    (hk : findEntry o m k = none) (n : ℕ) :
    Valid o { m with
      size := n
      buckets := Function.update m.buckets (o.hash k % m.nbuckets)
        ((m.buckets (o.hash k % m.nbuckets)).pushBack ⟨k, v⟩) } := by
  rw [hm.findEntry_eq] at hk
  refine ⟨hm.pos, ?_, ?_⟩
  · intro i hi e he
    by_cases hik : i = o.hash k % m.nbuckets
    · subst hik
      simp only [Function.update_self, PomeloList.pushBack_elements, List.mem_append,
        List.mem_singleton] at he
      rcases he with he | rfl
      · exact hm.placed _ hi e he
      · rfl
    · simp only [Function.update_of_ne hik] at he
      exact hm.placed i hi e he
  · intro i hi
    by_cases hik : i = o.hash k % m.nbuckets
    · subst hik
      simp only [Function.update_self, PomeloList.pushBack_elements]
      exact distinct_append_singleton (hm.distinct _ hi) hk
    · simp only [Function.update_of_ne hik]
      exact hm.distinct i hi

theorem Valid.get_push {m : Map K V} (hm : Valid o m) {k : K} (v : V)
    (hk : findEntry o m k = none) (n : ℕ) (k' : K) :
    get o { m with
      size := n
      buckets := Function.update m.buckets (o.hash k % m.nbuckets)
        ((m.buckets (o.hash k % m.nbuckets)).pushBack ⟨k, v⟩) } k' =
      if o.compare k k' then some v else get o m k' := by
  rw [get, (hm.push v hk n).findEntry_eq, get, hm.findEntry_eq]
  rw [hm.findEntry_eq] at hk
  by_cases hcompare : o.compare k k'
  · have hhash := o.hash_eq _ _ hcompare
    simp only [← hhash, Function.update_self, PomeloList.pushBack_elements]
    rw [findIn_append, ← findIn_congr hcompare, hk, findIn_cons, if_pos hcompare, if_pos hcompare]
    rfl
  · rw [if_neg hcompare]
    by_cases hindex : o.hash k' % m.nbuckets = o.hash k % m.nbuckets
    · rw [hindex]
      simp only [Function.update_self, PomeloList.pushBack_elements]
      rw [findIn_append, findIn_cons, if_neg hcompare, findIn_nil, Option.or_none]
    · simp only [Function.update_of_ne hindex]

end Push

section Steps

variable {m : Map K V} {s : SpecMap o.toKeyFunctions V}

theorem Represents.find_isSome_iff (h : Represents o m s) (k : K) :
    (findEntry o m k).isSome = true ↔ o.key k ∈ s := by
  rw [← Finmap.lookup_isSome, ← h.lookup k, get, Option.isSome_map]

theorem Represents.find_eq_none_iff (h : Represents o m s) (k : K) :
    findEntry o m k = none ↔ o.key k ∉ s := by
  rw [← h.find_isSome_iff, Bool.not_eq_true, Option.isSome_eq_false_iff, Option.isNone_iff_eq_none]

theorem lookup_insert_key (s : SpecMap o.toKeyFunctions V) (k k' : K) (v : V) :
    (s.insert (o.key k) v).lookup (o.key k') =
      if o.compare k k' then some v else s.lookup (o.key k') := by
  by_cases hk : o.compare k k'
  · rw [if_pos hk, (o.key_eq_iff k k').mpr hk, Finmap.lookup_insert]
  · rw [if_neg hk, Finmap.lookup_insert_of_ne]
    intro heq
    exact hk ((o.key_eq_iff k k').mp heq.symm)

theorem lookup_erase_key (s : SpecMap o.toKeyFunctions V) (k k' : K) :
    (s.erase (o.key k)).lookup (o.key k') =
      if o.compare k k' then none else s.lookup (o.key k') := by
  by_cases hk : o.compare k k'
  · rw [if_pos hk, (o.key_eq_iff k k').mpr hk, Finmap.lookup_erase]
  · rw [if_neg hk, Finmap.lookup_erase_ne]
    intro heq
    exact hk ((o.key_eq_iff k k').mp heq.symm)

theorem Represents.write (h : Represents o m s) {k : K} (v : V) {entry : Entry K V}
    (hk : findEntry o m k = some entry) :
    Represents o { m with
      buckets := Function.update m.buckets (o.hash k % m.nbuckets)
        ((m.buckets (o.hash k % m.nbuckets)).writeFirst (fun e => o.compare e.key k)
          (fun e => { e with value := v })) }
      (s.insert (o.key k) v) := by
  have hvalid : Valid o { m with
      buckets := Function.update m.buckets (o.hash k % m.nbuckets)
        ((m.buckets (o.hash k % m.nbuckets)).writeFirst (fun e => o.compare e.key k)
          (fun e => { e with value := v })) } := by
    refine ⟨h.pos, ?_, ?_⟩
    · intro i hi e he
      by_cases hik : i = o.hash k % m.nbuckets
      · subst hik
        simp only [Function.update_self, PomeloList.writeFirst_elements] at he
        have hkey := List.mem_map_of_mem (f := Entry.key) he
        rw [replaceF_value_keys] at hkey
        obtain ⟨e', he', hkey⟩ := List.mem_map.mp hkey
        rw [← hkey]
        exact h.placed _ hi e' he'
      · simp only [Function.update_of_ne hik] at he
        exact h.placed i hi e he
    · intro i hi
      by_cases hik : i = o.hash k % m.nbuckets
      · subst hik
        simp only [Function.update_self, PomeloList.writeFirst_elements]
        rw [distinct_iff_keys, replaceF_value_keys, ← distinct_iff_keys]
        exact h.distinct _ hi
      · simp only [Function.update_of_ne hik]
        exact h.distinct i hi
  have hmem : o.key k ∈ s := (h.find_isSome_iff k).mp (by simp [hk])
  refine ⟨hvalid, ?_, ?_⟩
  · intro k'
    rw [lookup_insert_key, ← h.lookup k', get, hvalid.findEntry_eq, get, h.findEntry_eq]
    rw [h.findEntry_eq] at hk
    by_cases hindex : o.hash k' % m.nbuckets = o.hash k % m.nbuckets
    · rw [hindex]
      simp only [Function.update_self, PomeloList.writeFirst_elements]
      rw [findIn_write, hk]
      simp
    · simp only [Function.update_of_ne hindex]
      have hcompare : ¬ o.compare k k' = true := by
        intro hcompare
        exact hindex (by rw [o.hash_eq _ _ hcompare])
      rw [if_neg hcompare]
  · have hkeys : (s.insert (o.key k) v).keys = s.keys := by
      ext a
      rw [Finmap.mem_keys, Finmap.mem_insert, Finmap.mem_keys]
      exact ⟨fun ha => ha.elim (fun ha => ha ▸ hmem) id, Or.inr⟩
    rw [hkeys]
    exact h.size

theorem Represents.add (h : Represents o m s) {k : K} (v : V) (hk : findEntry o m k = none)
    {m' : Map K V} (hm' : Valid o m') (hfind : ∀ k', findEntry o m' k' = findEntry o m k')
    (hsize : m'.size = m.size) :
    Represents o { m' with
      size := m'.size + 1
      buckets := Function.update m'.buckets (o.hash k % m'.nbuckets)
        ((m'.buckets (o.hash k % m'.nbuckets)).pushBack ⟨k, v⟩) }
      (s.insert (o.key k) v) := by
  have hk' : findEntry o m' k = none := by rw [hfind, hk]
  refine ⟨hm'.push v hk' _, ?_, ?_⟩
  · intro k'
    rw [hm'.get_push v hk', lookup_insert_key, ← h.lookup k', get, get, hfind]
  · have hkeys : (s.insert (o.key k) v).keys = insert (o.key k) s.keys := by
      ext a
      rw [Finmap.mem_keys, Finmap.mem_insert, Finset.mem_insert, Finmap.mem_keys]
    have hmem : o.key k ∉ s.keys := by
      rw [Finmap.mem_keys]
      exact (h.find_eq_none_iff k).mp hk
    rw [hkeys, Finset.card_insert_of_notMem hmem, ← h.size, hsize]

theorem Represents.setEntry (h : Represents o m s) {k : K} {v : V}
    (hgrowth : GrowthKeepsPlaces o m (.set k v)) :
    Represents o (setEntry o m k v).1 (s.insert (o.key k) v) ∧
      (Map.setEntry o m k v).2.value = v := by
  have hfind := h.findEntry_eq k
  rw [findIn] at hfind
  rw [Map.setEntry, ← hfind]
  cases hk : findEntry o m k with
  | some entry => exact ⟨h.write v hk, rfl⟩
  | none =>
      refine ⟨?_, rfl⟩
      by_cases hload : o.overLoad (m.size + 1) m.nbuckets = true
      · obtain ⟨hindex, hone⟩ := hgrowth hk hload
        have hpos := h.pos
        have hn : (resizeBuckets o m (m.nbuckets * 2)).nbuckets = m.nbuckets * 2 :=
          resizeBuckets_nbuckets o (by omega)
        have hadd := h.add v hk (h.resize hone) (h.findEntry_resize hone)
          (resizeBuckets_size o m _)
        rw [hn, hindex] at hadd
        simpa [hload, hn] using hadd
      · simpa [hload] using h.add v hk h.toValid (fun _ => rfl) rfl

theorem Represents.del (h : Represents o m s) (k : K) :
    Represents o (del o m k).1 (s.erase (o.key k)) ∧
      (Map.del o m k).2 = if o.key k ∈ s then 0 else -1 := by
  rw [Map.del]
  cases hk : findEntry o m k with
  | none =>
      have hmem : o.key k ∉ s := (h.find_eq_none_iff k).mp hk
      have herase : s.erase (o.key k) = s := by
        apply Finmap.ext_lookup
        intro a
        by_cases ha : a = o.key k
        · rw [ha, Finmap.lookup_erase, Finmap.lookup_eq_none.mpr hmem]
        · rw [Finmap.lookup_erase_ne ha]
      rw [herase]
      exact ⟨h, by simp [hmem]⟩
  | some entry =>
      have hmem : o.key k ∈ s := (h.find_isSome_iff k).mp (by simp [hk])
      have hvalid : Valid o { m with
          size := m.size - 1
          buckets := Function.update m.buckets (o.hash k % m.nbuckets)
            ((m.buckets (o.hash k % m.nbuckets)).removeFirst (fun e => o.compare e.key k)) } := by
        refine ⟨h.pos, ?_, ?_⟩
        · intro i hi e he
          by_cases hik : i = o.hash k % m.nbuckets
          · subst hik
            simp only [Function.update_self, PomeloList.removeFirst_elements] at he
            exact h.placed _ hi e (List.mem_of_mem_eraseP he)
          · simp only [Function.update_of_ne hik] at he
            exact h.placed i hi e he
        · intro i hi
          by_cases hik : i = o.hash k % m.nbuckets
          · subst hik
            simp only [Function.update_self, PomeloList.removeFirst_elements]
            exact (h.distinct _ hi).sublist List.eraseP_sublist
          · simp only [Function.update_of_ne hik]
            exact h.distinct i hi
      refine ⟨⟨hvalid, ?_, ?_⟩, by simp [hmem]⟩
      · intro k'
        rw [lookup_erase_key, ← h.lookup k', get, hvalid.findEntry_eq, get, h.findEntry_eq]
        by_cases hindex : o.hash k' % m.nbuckets = o.hash k % m.nbuckets
        · rw [hindex]
          simp only [Function.update_self, PomeloList.removeFirst_elements]
          rw [findIn_eraseP (h.distinct _ (h.index_lt k))]
          split <;> rfl
        · simp only [Function.update_of_ne hindex]
          have hcompare : ¬ o.compare k k' = true := by
            intro hcompare
            exact hindex (by rw [o.hash_eq _ _ hcompare])
          rw [if_neg hcompare]
      · have hkey : o.key k ∈ s.keys := Finmap.mem_keys.mpr hmem
        rw [Finmap.keys_erase, Finset.card_erase_of_mem hkey, ← h.size]

theorem represents_empty (hpos : 0 < m.nbuckets) (hsize : m.size = 0)
    (hempty : ∀ i < m.nbuckets, (m.buckets i).elements = []) :
    Represents o m (∅ : SpecMap o.toKeyFunctions V) := by
  have hvalid : Valid o m := by
    refine ⟨hpos, ?_, ?_⟩
    · intro i hi e he
      rw [hempty i hi] at he
      exact absurd he (by simp)
    · intro i hi
      rw [hempty i hi]
      exact List.Pairwise.nil
  refine ⟨hvalid, ?_, ?_⟩
  · intro k
    rw [get, hvalid.findEntry_eq, hempty _ (hvalid.index_lt k)]
    rfl
  · rw [hsize, Finmap.keys_empty, Finset.card_empty]

theorem Represents.clear (h : Represents o m s) :
    Represents o m.clear (∅ : SpecMap o.toKeyFunctions V) := by
  refine represents_empty (m := m.clear) h.pos rfl ?_
  intro i hi
  have hi : i < m.nbuckets := hi
  simp [Map.clear, hi]

theorem represents_create (o : MapOptions K) :
    Represents o (create o : Map K V) (∅ : SpecMap o.toKeyFunctions V) := by
  have hn : 0 < (if 0 < o.initialBuckets then o.initialBuckets else 16) := by
    split <;> omega
  have hnb : (create o : Map K V).nbuckets =
      if 0 < o.initialBuckets then o.initialBuckets else 16 :=
    resizeBuckets_nbuckets o hn
  apply represents_empty
  · rw [hnb]
    exact hn
  · exact resizeBuckets_size o _ _
  · intro i _
    simp [create, resizeBuckets, Nat.not_le.mpr hn]

theorem Represents.step (h : Represents o m s) {op : MapOp K V}
    (hop : GrowthKeepsPlaces o m op) :
    Represents o (step o m op).1 (SpecMap.step s op).1 ∧
      (Map.step o m op).2 = (SpecMap.step s op).2 := by
  cases op with
  | set k v =>
      obtain ⟨hrep, hvalue⟩ := h.setEntry hop
      exact ⟨hrep, by simp [Map.step, SpecMap.step, hvalue]⟩
  | get k => exact ⟨h, by simp [Map.step, SpecMap.step, h.lookup k]⟩
  | has k =>
      refine ⟨h, ?_⟩
      have := h.find_isSome_iff k
      simp only [Map.step, SpecMap.step, has, MapAnswer.present.injEq]
      rw [Bool.eq_iff_iff, this, decide_eq_true_iff]
  | del k =>
      obtain ⟨hrep, hcode⟩ := h.del k
      exact ⟨hrep, by simp [Map.step, SpecMap.step, hcode]⟩
  | clear => exact ⟨h.clear, rfl⟩

theorem Represents.get_setEntry_move (h : Represents o m s) {k : K} {v : V}
    (hk : findEntry o m k = none) (hload : o.overLoad (m.size + 1) m.nbuckets = true)
    {k' : K} (hmove : o.hash k' % (m.nbuckets * 2) ≠ o.hash k' % m.nbuckets) :
    get o (Map.setEntry o m k v).1 k' =
      (findIn o.toKeyFunctions k'
        ((movers o.toKeyFunctions (m.nbuckets * 2) (o.hash k' % m.nbuckets)
          (m.buckets (o.hash k' % m.nbuckets)).elements).take 1)).map Entry.value := by
  have hpos := h.pos
  have hfind := h.findEntry_eq k
  rw [findIn, hk] at hfind
  have hn : (resizeBuckets o m (m.nbuckets * 2)).nbuckets = m.nbuckets * 2 :=
    resizeBuckets_nbuckets o (by omega)
  have hindex : o.hash k' % (m.nbuckets * 2) ≠ o.hash k % m.nbuckets := by
    have := h.index_lt k
    have := mod_double_ne hmove
    omega
  rw [Map.setEntry, ← hfind]
  simp only [hload, if_true]
  rw [get, findEntry, if_neg (by simp only [hn]; omega)]
  simp only [hn, Function.update_of_ne hindex]
  rw [h.resize_move hmove]
  rfl

theorem Represents.displaced (h : Represents o m s) {k : K} {v : V}
    (hop : ¬ GrowthKeepsPlaces o m (.set k v)) :
    findEntry o m k = none ∧ (get o (Map.setEntry o m k v).1 k = none ∨
      ∃ k', get o m k' ≠ none ∧ get o (Map.setEntry o m k v).1 k' = none) := by
  simp only [GrowthKeepsPlaces, Classical.not_imp, not_and_or] at hop
  obtain ⟨hk, hload, hindex | hmany⟩ := hop
  · -- the pending key is pushed where it belonged before the growth
    refine ⟨hk, .inl ?_⟩
    have hnone : findIn o.toKeyFunctions k
        ((movers o.toKeyFunctions (m.nbuckets * 2) (o.hash k % m.nbuckets)
          (m.buckets (o.hash k % m.nbuckets)).elements).take 1) = none := by
      have hk' := hk
      rw [h.findEntry_eq, findIn_eq_none_iff] at hk'
      rw [findIn_eq_none_iff]
      intro e he
      exact hk' e (mem_movers.mp (List.mem_of_mem_take he)).1
    rw [h.get_setEntry_move hk hload hindex, hnone]
    rfl
  · -- the second mover of some bucket stays behind
    simp only [not_forall, not_le] at hmany
    obtain ⟨i, hi, hlen⟩ := hmany
    obtain ⟨e₀, e₁, rest, hmovers⟩ :
        ∃ e₀ e₁ rest, movers o.toKeyFunctions (m.nbuckets * 2) i (m.buckets i).elements =
          e₀ :: e₁ :: rest := by
      match hl : movers o.toKeyFunctions (m.nbuckets * 2) i (m.buckets i).elements with
      | [] => simp [hl] at hlen
      | [_] => simp [hl] at hlen
      | e₀ :: e₁ :: rest => exact ⟨e₀, e₁, rest, rfl⟩
    have hmem : e₁ ∈ movers o.toKeyFunctions (m.nbuckets * 2) i (m.buckets i).elements := by
      simp [hmovers]
    obtain ⟨hold, hne⟩ := mem_movers.mp hmem
    have hplace := h.placed i hi e₁ hold
    have hdistinct : Distinct o.toKeyFunctions
        (movers o.toKeyFunctions (m.nbuckets * 2) i (m.buckets i).elements) :=
      (h.distinct i hi).sublist List.filter_sublist
    rw [hmovers, Distinct, List.pairwise_cons] at hdistinct
    have hcompare : o.compare e₀.key e₁.key = false := hdistinct.1 e₁ (by simp)
    refine ⟨hk, .inr ⟨e₁.key, ?_, ?_⟩⟩
    · rw [h.get_of_mem hi hold]
      exact Option.some_ne_none _
    · rw [h.get_setEntry_move hk hload (by rwa [hplace]), hplace, hmovers]
      simp [findIn, hcompare]

theorem Represents.lost_of_not_growthKeepsPlaces (h : Represents o m s) {op : MapOp K V}
    (hop : ¬ GrowthKeepsPlaces o m op) :
    ∃ k, get o (Map.step o m op).1 k ≠ ((SpecMap.step s op).1).lookup (o.key k) := by
  cases op with
  | set k v =>
      obtain ⟨hk, hlost | ⟨k', hfound, hlost⟩⟩ := h.displaced hop
      · refine ⟨k, ?_⟩
        simp only [Map.step, SpecMap.step]
        rw [hlost, Finmap.lookup_insert]
        exact (Option.some_ne_none v).symm
      · refine ⟨k', ?_⟩
        simp only [Map.step, SpecMap.step]
        have hother : ¬ o.compare k k' = true := by
          intro hcompare
          rw [get, ← h.findEntry_congr hcompare, hk] at hfound
          exact hfound rfl
        rw [hlost, lookup_insert_key, if_neg hother, ← h.lookup]
        exact hfound.symm
  | get k => exact absurd trivial hop
  | has k => exact absurd trivial hop
  | del k => exact absurd trivial hop
  | clear => exact absurd trivial hop

theorem get_del_of_none {m : Map K V} {k k' : K} (hlost : get o m k' = none) :
    get o (Map.del o m k).1 k' = none := by
  rw [Map.del]
  split
  · exact hlost
  · rw [get, Option.map_eq_none_iff, findEntry] at hlost ⊢
    dsimp only
    split
    · rfl
    next hbuckets =>
    rw [if_neg hbuckets] at hlost
    by_cases hindex : o.hash k' % m.nbuckets = o.hash k % m.nbuckets
    · rw [hindex, Function.update_self, PomeloList.removeFirst_elements]
      rw [hindex] at hlost
      refine List.find?_eq_none.mpr fun e he => ?_
      exact List.find?_eq_none.mp hlost e (List.mem_of_mem_eraseP he)
    · rw [Function.update_of_ne hindex]
      exact hlost

theorem Represents.del_setEntry_iff (h : Represents o m s) {k : K} {v : V}
    (hk : findEntry o m k = none) :
    (get o (Map.del o (Map.setEntry o m k v).1 k).1 = get o m ∧
        (Map.del o (Map.setEntry o m k v).1 k).1.size = m.size) ↔
      GrowthKeepsPlaces o m (.set k v) := by
  constructor
  · rintro ⟨hget, hsize⟩
    by_contra hop
    obtain ⟨-, hlost | ⟨k', hfound, hlost⟩⟩ := h.displaced hop
    · -- the entry of the new key stays
      have hfind : findEntry o (Map.setEntry o m k v).1 k = none := by
        simpa [get] using hlost
      rw [Map.del, hfind, size_setEntry_of_none (h.toValid) hk] at hsize
      omega
    · exact hfound (hget ▸ get_del_of_none hlost)
  · intro hop
    have hset := (h.setEntry hop).1
    have hdel := (hset.del k).1
    have hmem : o.key k ∉ s := (h.find_eq_none_iff k).mp hk
    have hsame : (s.insert (o.key k) v).erase (o.key k) = s := by
      apply Finmap.ext_lookup
      intro a
      by_cases ha : a = o.key k
      · rw [ha, Finmap.lookup_erase, Finmap.lookup_eq_none.mpr hmem]
      · rw [Finmap.lookup_erase_ne ha, Finmap.lookup_insert_of_ne _ ha]
    rw [hsame] at hdel
    exact ⟨funext fun a => (hdel.lookup a).trans (h.lookup a).symm, hdel.size.trans h.size.symm⟩

end Steps

section Runs

variable (o)

/-- After the operations `ops` on a new map, the code gave the answers of the
finite map, has its size and finds what it finds. -/
def AgreesAfter (ops : List (MapOp K V)) : Prop :=
  outputs (step o) (create o) ops = outputs SpecMap.step (∅ : SpecMap o.toKeyFunctions V) ops ∧
  (run (next (step o)) (create o) ops).size =
    (run (next SpecMap.step) (∅ : SpecMap o.toKeyFunctions V) ops).keys.card ∧
  ∀ k, get o (run (next (step o)) (create o) ops) k =
    (run (next SpecMap.step) (∅ : SpecMap o.toKeyFunctions V) ops).lookup (o.key k)

/-- The run lemma: as long as no growth displaces an entry, the map stands for
the finite map and has answered as it does. -/
theorem represents_run {ops : List (MapOp K V)}
    (hops : Along (next (step o)) (GrowthKeepsPlaces o) (create o) ops) :
    Represents o (run (next (step o)) (create o) ops)
        (run (next SpecMap.step) (∅ : SpecMap o.toKeyFunctions V) ops) ∧
      outputs (step o) (create o) ops =
        outputs SpecMap.step (∅ : SpecMap o.toKeyFunctions V) ops :=
  simulation_run (fun _ _ _ h hop => h.step hop) (represents_create o) hops

/-- The hash map is the finite map all along a run exactly when no growth of the
run displaces an entry. -/
theorem agreesAfter_prefix_iff (ops : List (MapOp K V)) :
    (∀ pre, pre <+: ops → AgreesAfter o pre) ↔
      Along (next (step o)) (GrowthKeepsPlaces o) (create o) ops := by
  constructor
  · intro h
    induction ops using List.reverseRecOn with
    | nil => trivial
    | append_singleton ops op ih =>
        have hops := ih (fun pre hpre => h pre (hpre.trans (List.prefix_append _ _)))
        rw [along_append]
        refine ⟨hops, ?_, trivial⟩
        by_contra hop
        obtain ⟨k, hk⟩ := (represents_run o hops).1.lost_of_not_growthKeepsPlaces hop
        have hagree := (h _ List.prefix_rfl).2.2 k
        rw [run_append, run_append] at hagree
        exact hk hagree
  · rintro h pre ⟨rest, rfl⟩
    rw [along_append] at h
    obtain ⟨hrep, hout⟩ := represents_run o h.1
    exact ⟨hout, hrep.size, hrep.lookup⟩

/-- The options of a map with 64-bit integer keys and nothing else given:
`pomelo_map_hash_64`, `pomelo_map_compare_64`, 16 buckets and a load factor of
0.75, whose float comparison is exact for small sizes. -/
def uint64Options : MapOptions UInt64 where
  hash k := k.toNat
  compare a b := a == b
  compare_refl a := by simp
  compare_symm a b h := by
    rw [beq_iff_eq] at h ⊢
    exact h.symm
  compare_trans a b c hab hbc := by
    rw [beq_iff_eq] at hab hbc ⊢
    rw [hab, hbc]
  hash_eq a b h := by rw [beq_iff_eq.mp h]
  overLoad size nbuckets := decide (3 * nbuckets < 4 * size)
  initialBuckets := 0

/-- The keys 1 to 12 fill the 16 buckets up to the load factor; key 16 makes the
array grow, is pushed into bucket 0 and looked up in bucket 16. -/
theorem default_map_loses_a_key :
    ¬ ∀ (K V : Type) (o : MapOptions K) (ops : List (MapOp K V)), AgreesAfter o ops := by
  intro h
  have hlast := (h UInt64 Bool uint64Options
    ((List.range 12).map (fun i => .set (UInt64.ofNat (i + 1)) true) ++ [.set 16 true])).2.2 16
  have hlost : get uint64Options (run (next (step uint64Options)) (create uint64Options)
      ((List.range 12).map (fun i => .set (UInt64.ofNat (i + 1)) true) ++ [.set 16 true])) 16 =
        none := by
    decide +kernel
  rw [hlost, run_append, run_cons, run_nil] at hlast
  have hspec (s : SpecMap uint64Options.toKeyFunctions Bool) :
      (next SpecMap.step s (.set 16 true)).lookup (uint64Options.key 16) = some true :=
    Finmap.lookup_insert s
  rw [hspec] at hlast
  exact absurd hlast (by decide)

end Runs

end Representation

end Map

end Utils

end PomeloUdp
