import PomeloUdp.Utils.Map

/-!
# Growing the bucket array

The loop of `pomelo_map_bucket_redistribute` moves the first entry whose bucket
changes and stops there, because `pomelo_list_iterator_transfer` leaves the
iterator out of date. `resizeBuckets_elements` describes what a doubling of the
buckets does to every bucket: an old bucket loses its first mover and a new
bucket holds that mover alone. So a bucket is emptied of its movers exactly when
it has at most one of them.
-/

namespace PomeloUdp

namespace Utils

namespace Map

variable {K V : Type*}

/-- The entries of a list that do not belong to bucket `i` of `nbuckets`. -/
def movers (f : KeyFunctions K) (nbuckets i : ℕ) (l : List (Entry K V)) : List (Entry K V) :=
  l.filter (fun e => decide (f.hash e.key % nbuckets ≠ i))

/-- What a redistribution leaves of the list of bucket `i`. -/
def leftover (f : KeyFunctions K) (nbuckets i : ℕ) (l : List (Entry K V)) : List (Entry K V) :=
  l.eraseP (fun e => decide (f.hash e.key % nbuckets ≠ i))

theorem mem_movers {f : KeyFunctions K} {nbuckets i : ℕ} {l : List (Entry K V)}
    {e : Entry K V} :
    e ∈ movers f nbuckets i l ↔ e ∈ l ∧ f.hash e.key % nbuckets ≠ i := by
  simp [movers]

theorem movers_eq_nil_iff {f : KeyFunctions K} {nbuckets i : ℕ} {l : List (Entry K V)} :
    movers f nbuckets i l = [] ↔ ∀ e ∈ l, f.hash e.key % nbuckets = i := by
  simp [movers, List.filter_eq_nil_iff]

theorem leftover_sublist (f : KeyFunctions K) (nbuckets i : ℕ) (l : List (Entry K V)) :
    (leftover f nbuckets i l).Sublist l := List.eraseP_sublist

theorem hash_of_mem_leftover {f : KeyFunctions K} {nbuckets i : ℕ} {l : List (Entry K V)}
    (hone : (movers f nbuckets i l).length ≤ 1) {e : Entry K V}
    (he : e ∈ leftover f nbuckets i l) : f.hash e.key % nbuckets = i := by
  by_contra hne
  have hcount : (movers f nbuckets i (leftover f nbuckets i l)).length =
      (movers f nbuckets i l).length - 1 := by
    induction l with
    | nil => simp [leftover, movers]
    | cons a l ih =>
        by_cases ha : f.hash a.key % nbuckets = i
        · have hl : leftover f nbuckets i (a :: l) = a :: leftover f nbuckets i l := by
            simp [leftover, ha]
          have hm : ∀ l' : List (Entry K V),
              movers f nbuckets i (a :: l') = movers f nbuckets i l' := by
            simp [movers, ha]
          rw [hl, hm, hm]
          rw [hm] at hone
          rw [hl, List.mem_cons] at he
          rcases he with rfl | he
          · exact absurd ha hne
          · exact ih hone he
        · simp [leftover, movers, ha]
  have hmem : e ∈ movers f nbuckets i (leftover f nbuckets i l) := mem_movers.mpr ⟨he, hne⟩
  have hpos := List.length_pos_of_mem hmem
  omega

section Redistribute

variable (o : MapOptions K) (nbuckets i : ℕ)

theorem redistributeLoop_append {stay : List (Entry K V)}
    (hstay : ∀ e ∈ stay, o.hash e.key % nbuckets = i)
    (fuel : ℕ) (passed rest : List (Entry K V)) (buckets : Buckets K V) :
    redistributeLoop o nbuckets i (stay.length + fuel)
        ⟨passed, stay ++ rest, (buckets i).modCount⟩ buckets =
      redistributeLoop o nbuckets i fuel
        ⟨passed ++ stay, rest, (buckets i).modCount⟩ buckets := by
  induction stay generalizing passed with
  | nil => simp
  | cons e stay ih =>
      have he : o.hash e.key % nbuckets = i := hstay e (by simp)
      have hfuel : (e :: stay).length + fuel = stay.length + fuel + 1 := by
        simp only [List.length_cons]
        omega
      rw [hfuel, redistributeLoop, List.cons_append, ListIterator.advance_cons rfl rfl]
      simp only [he, if_true]
      rw [ih (fun e h => hstay e (by simp [h]))]
      simp

/-- At the first entry that has to move, the loop moves it and stops: the
iterator no longer matches its list. -/
theorem redistributeLoop_cons_mover {e : Entry K V}
    (he : o.hash e.key % nbuckets ≠ i)
    (fuel : ℕ) (passed rest : List (Entry K V)) (buckets : Buckets K V) :
    redistributeLoop o nbuckets i (fuel + 2)
        ⟨passed, e :: rest, (buckets i).modCount⟩ buckets =
      Function.update
        (Function.update buckets i ⟨passed ++ rest, (buckets i).modCount + 1⟩)
        (o.hash e.key % nbuckets)
        ((buckets (o.hash e.key % nbuckets)).pushBack e) := by
  rw [redistributeLoop, ListIterator.advance_cons rfl rfl]
  simp only [he, if_false]
  rw [redistributeLoop]
  simp [ListIterator.transfer, Function.update_of_ne (Ne.symm he),
    ListIterator.advance_of_stale]

theorem redistribute_of_forall_stay {buckets : Buckets K V}
    (h : ∀ e ∈ (buckets i).elements, o.hash e.key % nbuckets = i) :
    redistribute o nbuckets i buckets = buckets := by
  have hloop := redistributeLoop_append o nbuckets i h 1 [] [] buckets
  rw [List.append_nil] at hloop
  rw [redistribute, ListIterator.init, hloop, redistributeLoop, ListIterator.advance_nil rfl]

theorem redistribute_of_mover {buckets : Buckets K V} {stay rest : List (Entry K V)}
    {e : Entry K V} (hsplit : (buckets i).elements = stay ++ e :: rest)
    (hstay : ∀ e ∈ stay, o.hash e.key % nbuckets = i)
    (he : o.hash e.key % nbuckets ≠ i) :
    redistribute o nbuckets i buckets =
      Function.update
        (Function.update buckets i ⟨stay ++ rest, (buckets i).modCount + 1⟩)
        (o.hash e.key % nbuckets)
        ((buckets (o.hash e.key % nbuckets)).pushBack e) := by
  have hfuel : (buckets i).elements.length + 1 = stay.length + (rest.length + 2) := by
    rw [hsplit, List.length_append, List.length_cons]
    omega
  rw [redistribute, hfuel, ListIterator.init, hsplit,
    redistributeLoop_append o nbuckets i hstay, List.nil_append,
    redistributeLoop_cons_mover o nbuckets i he]

theorem redistribute_elements (buckets : Buckets K V) (j : ℕ) :
    (redistribute o nbuckets i buckets j).elements =
      if j = i then leftover o.toKeyFunctions nbuckets i (buckets i).elements
      else (buckets j).elements ++
        ((movers o.toKeyFunctions nbuckets i (buckets i).elements).take 1).filter
          (fun e => decide (o.hash e.key % nbuckets = j)) := by
  cases hmovers : movers o.toKeyFunctions nbuckets i (buckets i).elements with
  | nil =>
      have hstay := movers_eq_nil_iff.mp hmovers
      rw [redistribute_of_forall_stay o nbuckets i hstay]
      have hleft : leftover o.toKeyFunctions nbuckets i (buckets i).elements =
          (buckets i).elements := by
        rw [leftover, List.eraseP_of_forall_not]
        simpa using hstay
      split
      · next hj => rw [hleft, hj]
      · simp
  | cons e more =>
      obtain ⟨stay, rest, hsplit, hstay, he, -⟩ := List.filter_eq_cons_iff.mp hmovers
      have he : o.hash e.key % nbuckets ≠ i := by simpa using he
      have hstay : ∀ a ∈ stay, o.hash a.key % nbuckets = i := by simpa using hstay
      rw [redistribute_of_mover o nbuckets i hsplit hstay he]
      have hleft : leftover o.toKeyFunctions nbuckets i (buckets i).elements = stay ++ rest := by
        rw [hsplit, leftover, List.eraseP_append_right _ (by simpa using hstay)]
        simp [he]
      by_cases hj : j = o.hash e.key % nbuckets
      · subst hj
        simp [he]
      · rw [Function.update_of_ne hj]
        by_cases hji : j = i
        · subst hji
          simp [hleft]
        · rw [Function.update_of_ne hji, if_neg hji]
          simp [Ne.symm hj]

end Redistribute

section Resize

variable (o : MapOptions K)

theorem mod_double {h n i : ℕ} (hi : h % n = i) : h % (n * 2) = i ∨ h % (n * 2) = n + i := by
  have hmod : h % (n * 2) = h % n + n * (h / n % 2) := Nat.mod_mul
  have hcases : h / n % 2 = 0 ∨ h / n % 2 = 1 := by omega
  rcases hcases with hq | hq <;> rw [hq] at hmod <;> omega

theorem foldl_redistribute_elements {n : ℕ} {buckets : Buckets K V}
    (hplaced : ∀ i < n, ∀ e ∈ (buckets i).elements, o.hash e.key % n = i)
    (hnew : ∀ j, n ≤ j → (buckets j).elements = [])
    {r : ℕ} (hr : r ≤ n) (j : ℕ) :
    ((List.range r).foldl (fun b i => redistribute o (n * 2) i b) buckets j).elements =
      if j < n then
        if j < r then leftover o.toKeyFunctions (n * 2) j (buckets j).elements
        else (buckets j).elements
      else if j - n < r then
        (movers o.toKeyFunctions (n * 2) (j - n) (buckets (j - n)).elements).take 1
      else [] := by
  induction r generalizing j with
  | zero =>
      by_cases hj : j < n
      · simp [hj]
      · simp [hj, hnew j (by omega)]
  | succ r ih =>
      have hrn : r < n := by omega
      have hold := ih (by omega)
      set b := (List.range r).foldl (fun b i => redistribute o (n * 2) i b) buckets with hb
      have hbr : (b r).elements = (buckets r).elements := by
        rw [hold r]
        simp [hrn]
      rw [List.range_succ, List.foldl_append, List.foldl_cons, List.foldl_nil,
        redistribute_elements, ← hb, hbr, hold j]
      -- the movers of bucket `r` all belong to bucket `n + r`
      have hup : ∀ e ∈ movers o.toKeyFunctions (n * 2) r (buckets r).elements,
          o.hash e.key % (n * 2) = n + r := by
        intro e he
        obtain ⟨hmem, hne⟩ := mem_movers.mp he
        exact (mod_double (hplaced r hrn e hmem)).resolve_left hne
      by_cases hjr : j = r
      · subst hjr
        simp [hrn]
      · rw [if_neg hjr]
        by_cases hjn : j = n + r
        · subst hjn
          have hall : ((movers o.toKeyFunctions (n * 2) r (buckets r).elements).take 1).filter
              (fun e => decide (o.hash e.key % (n * 2) = n + r)) =
                (movers o.toKeyFunctions (n * 2) r (buckets r).elements).take 1 := by
            rw [List.filter_eq_self]
            intro e he
            simpa using hup e (List.mem_of_mem_take he)
          have hn : ¬ n + r < n := by omega
          rw [hall]
          simp [hn]
        · have hnone : ((movers o.toKeyFunctions (n * 2) r (buckets r).elements).take 1).filter
              (fun e => decide (o.hash e.key % (n * 2) = j)) = [] := by
            rw [List.filter_eq_nil_iff]
            intro e he
            have := hup e (List.mem_of_mem_take he)
            simp only [decide_eq_true_eq]
            omega
          rw [hnone, List.append_nil]
          have hlt : (j < r + 1) ↔ j < r := by omega
          by_cases hj : j < n
          · simp [hj, hlt]
          · have hlt' : j - n < r + 1 ↔ j - n < r := by omega
            simp [hj, hlt']

theorem resizeBuckets_elements {m : Map K V} (hpos : 0 < m.nbuckets)
    (hplaced : ∀ i < m.nbuckets, ∀ e ∈ (m.buckets i).elements, o.hash e.key % m.nbuckets = i)
    (j : ℕ) :
    ((resizeBuckets o m (m.nbuckets * 2)).buckets j).elements =
      if j < m.nbuckets then
        leftover o.toKeyFunctions (m.nbuckets * 2) j (m.buckets j).elements
      else if j - m.nbuckets < m.nbuckets then
        (movers o.toKeyFunctions (m.nbuckets * 2) (j - m.nbuckets)
          (m.buckets (j - m.nbuckets)).elements).take 1
      else [] := by
  rw [resizeBuckets, if_neg (by omega)]
  have hold : ∀ i < m.nbuckets,
      ∀ e ∈ (if i < m.nbuckets then m.buckets i else .create).elements,
        o.hash e.key % m.nbuckets = i := by
    intro i hi e he
    rw [if_pos hi] at he
    exact hplaced i hi e he
  have hnew : ∀ j, m.nbuckets ≤ j →
      (if j < m.nbuckets then m.buckets j else .create).elements = [] := by
    intro j hj
    simp [Nat.not_lt.mpr hj]
  rw [foldl_redistribute_elements o hold hnew le_rfl j]
  by_cases hj : j < m.nbuckets
  · simp [hj]
  · by_cases hj' : j - m.nbuckets < m.nbuckets
    · simp [hj, hj']
    · simp [hj, hj']

@[simp] theorem resizeBuckets_size (m : Map K V) (n : ℕ) :
    (resizeBuckets o m n).size = m.size := by
  unfold resizeBuckets
  split <;> rfl

theorem resizeBuckets_nbuckets {m : Map K V} {n : ℕ} (h : m.nbuckets < n) :
    (resizeBuckets o m n).nbuckets = n := by
  simp [resizeBuckets, Nat.not_le.mpr h]

end Resize

end Map

end Utils

end PomeloUdp
