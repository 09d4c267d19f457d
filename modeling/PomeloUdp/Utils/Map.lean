import Mathlib.Data.Finmap
import PomeloUdp.Library.Run
import PomeloUdp.Utils.List

/-!
# The hash map of the utilities

`Map` is `pomelo_map_t`: the number of buckets, the bucket array and the size.
A bucket is the list of its entries, and an entry's `bucket` pointer is the
bucket whose list holds it. The key functions are the map's `hash_fn` and
`compare_fn` with the consistency their users promise. The float comparison of
`pomelo_map_set_entry` against the load factor enters as an arbitrary test
`overLoad` of the new size and the number of buckets, which covers every load
factor. Allocations succeed.

The specification is `Finmap` over the keys up to `compare_fn`. A map that
`Represents` a finite map answers every lookup as it does, and every operation
keeps the representation, except for a `set` that grows the bucket array when
`GrowthKeepsPlaces` fails: then some key can no longer be found.
-/

namespace PomeloUdp

namespace Utils

/-- `hash_fn` and `compare_fn`: the comparison is an equivalence and equal keys
have equal hashes. -/
structure KeyFunctions (K : Type*) where
  hash : K → ℕ
  compare : K → K → Bool
  compare_refl : ∀ a, compare a a = true
  compare_symm : ∀ a b, compare a b = true → compare b a = true
  compare_trans : ∀ a b c, compare a b = true → compare b c = true → compare a c = true
  hash_eq : ∀ a b, compare a b = true → hash a = hash b

namespace KeyFunctions

variable {K : Type*} (f : KeyFunctions K)

/-- Keys up to `compare_fn`. -/
def setoid : Setoid K where
  r a b := f.compare a b = true
  iseqv := ⟨f.compare_refl, fun {a b} => f.compare_symm a b,
    fun {a b c} => f.compare_trans a b c⟩

/-- What the map distinguishes of a key. -/
def Key : Type _ := Quotient f.setoid

/-- The class of a key. -/
def key (a : K) : f.Key := Quotient.mk f.setoid a

theorem key_eq_iff (a b : K) : f.key a = f.key b ↔ f.compare a b = true :=
  Quotient.eq (r := f.setoid)

instance : DecidableEq f.Key :=
  @Quotient.decidableEq K f.setoid fun a b => inferInstanceAs (Decidable (f.compare a b = true))

theorem compare_comm (a b : K) : f.compare a b = f.compare b a := by
  rw [Bool.eq_iff_iff]
  exact ⟨f.compare_symm a b, f.compare_symm b a⟩

theorem compare_congr {a b : K} (h : f.compare a b = true) (c : K) :
    f.compare c a = f.compare c b := by
  rw [Bool.eq_iff_iff]
  exact ⟨fun hc => f.compare_trans c a b hc h,
    fun hc => f.compare_trans c b a hc (f.compare_symm a b h)⟩

end KeyFunctions

/-- `pomelo_map_entry_t`. -/
structure Entry (K V : Type*) where
  key : K
  value : V
  deriving DecidableEq, Repr

/-- The bucket array: `pomelo_array_get` at an index. -/
abbrev Buckets (K V : Type*) := ℕ → PomeloList (Entry K V)

/-- `pomelo_map_t`. -/
structure Map (K V : Type*) where
  size : ℕ
  nbuckets : ℕ
  buckets : Buckets K V

/-- The options of `pomelo_map_create` that are fixed for the life of a map. -/
structure MapOptions (K : Type*) extends KeyFunctions K where
  /-- `1.0f * size / nbuckets > load_factor`. -/
  overLoad : ℕ → ℕ → Bool
  initialBuckets : ℕ

namespace Map

variable {K V : Type*}

section Operations

variable (o : MapOptions K)

/-- The loop of `pomelo_map_bucket_redistribute` over bucket `i`, with the
iterator `it` over its entries. The fuel bounds the number of calls to
`pomelo_list_iterator_next`. -/
def redistributeLoop (nbuckets i : ℕ) :
    ℕ → ListIterator (Entry K V) → Buckets K V → Buckets K V
  | 0, _, buckets => buckets
  | fuel + 1, it, buckets =>
      match it.advance (buckets i) with
      | none => buckets
      | some (entry, it) =>
          let index := o.hash entry.key % nbuckets
          if index = i then redistributeLoop nbuckets i fuel it buckets
          else
            let moved := it.transfer (buckets i) (buckets index)
            redistributeLoop nbuckets i fuel moved.1
              (Function.update (Function.update buckets i moved.2.1) index moved.2.2)

/-- `pomelo_map_bucket_redistribute`: an iterator answers once for every entry
and once for the end. -/
def redistribute (nbuckets i : ℕ) (buckets : Buckets K V) : Buckets K V :=
  redistributeLoop o nbuckets i ((buckets i).elements.length + 1)
    (ListIterator.init (buckets i)) buckets

/-- `pomelo_map_resize_buckets`: new buckets are empty, then the buckets that
were there before are redistributed in order. -/
def resizeBuckets (m : Map K V) (newNbuckets : ℕ) : Map K V :=
  if newNbuckets ≤ m.nbuckets then m
  else
    let buckets : Buckets K V := fun i => if i < m.nbuckets then m.buckets i else .create
    { m with
      nbuckets := newNbuckets
      buckets := (List.range m.nbuckets).foldl
        (fun buckets i => redistribute o newNbuckets i buckets) buckets }

/-- `pomelo_map_create`: no bucket at first, then the initial ones. A number of
initial buckets that is not given is 16. -/
def create : Map K V :=
  resizeBuckets o { size := 0, nbuckets := 0, buckets := fun _ => .create }
    (if 0 < o.initialBuckets then o.initialBuckets else 16)

/-- `pomelo_map_find_entry`. -/
def findEntry (m : Map K V) (k : K) : Option (Entry K V) :=
  if m.nbuckets = 0 then none
  else (m.buckets (o.hash k % m.nbuckets)).elements.find? (fun e => o.compare e.key k)

/-- `pomelo_map_set_entry`. The index of the new entry is computed from the
number of buckets read on entry, also after a growth. -/
def setEntry (m : Map K V) (k : K) (v : V) : Map K V × Entry K V :=
  let nbuckets := m.nbuckets
  let index := o.hash k % nbuckets
  match (m.buckets index).elements.find? (fun e => o.compare e.key k) with
  | some entry =>
      ({ m with
          buckets := Function.update m.buckets index
            ((m.buckets index).writeFirst (fun e => o.compare e.key k)
              (fun e => { e with value := v })) },
        { entry with value := v })
  | none =>
      let m := if o.overLoad (m.size + 1) nbuckets then resizeBuckets o m (nbuckets * 2) else m
      ({ m with
          size := m.size + 1
          buckets := Function.update m.buckets index ((m.buckets index).pushBack ⟨k, v⟩) },
        ⟨k, v⟩)

/-- `pomelo_map_del_ptr` with `pomelo_map_del_entry`: `0`, or `-1` when the key
is not found. -/
def del (m : Map K V) (k : K) : Map K V × ℤ :=
  match findEntry o m k with
  | none => (m, -1)
  | some _ =>
      let index := o.hash k % m.nbuckets
      ({ m with
          size := m.size - 1
          buckets := Function.update m.buckets index
            ((m.buckets index).removeFirst (fun e => o.compare e.key k)) },
        0)

/-- `pomelo_map_get_ptr`: the value copied out, `none` for the answer `-1`. -/
def get (m : Map K V) (k : K) : Option V := (findEntry o m k).map Entry.value

/-- `pomelo_map_has_ptr`. -/
def has (m : Map K V) (k : K) : Bool := (findEntry o m k).isSome

/-- `pomelo_map_clear_entries`. -/
def clear (m : Map K V) : Map K V :=
  { m with
    size := 0
    buckets := fun i => if i < m.nbuckets then (m.buckets i).popAll else m.buckets i }

end Operations

end Map

/-- The public operations of the map. -/
inductive MapOp (K V : Type*) where
  | set (k : K) (v : V)
  | get (k : K)
  | has (k : K)
  | del (k : K)
  | clear

/-- What an operation answers; `set` answers the entry, of which the value is
kept. -/
inductive MapAnswer (V : Type*) where
  | stored (value : V)
  | found (value : Option V)
  | present (answer : Bool)
  | code (answer : ℤ)
  | done
  deriving DecidableEq

namespace Map

variable {K V : Type*}

/-- One operation on the code's map. -/
def step (o : MapOptions K) (m : Map K V) : MapOp K V → Map K V × MapAnswer V
  | .set k v => let r := setEntry o m k v; (r.1, .stored r.2.value)
  | .get k => (m, .found (get o m k))
  | .has k => (m, .present (has o m k))
  | .del k => let r := del o m k; (r.1, .code r.2)
  | .clear => (m.clear, .done)

end Map

/-- The mathematical map: finitely many keys, up to `compare_fn`, with a value
each. -/
abbrev SpecMap {K : Type*} (f : KeyFunctions K) (V : Type*) := Finmap fun _ : f.Key => V

namespace SpecMap

variable {K V : Type*} {f : KeyFunctions K}

/-- One operation on the mathematical map. -/
def step (s : SpecMap f V) : MapOp K V → SpecMap f V × MapAnswer V
  | .set k v => (s.insert (f.key k) v, .stored v)
  | .get k => (s, .found (s.lookup (f.key k)))
  | .has k => (s, .present (decide (f.key k ∈ s)))
  | .del k => (s.erase (f.key k), .code (if f.key k ∈ s then 0 else -1))
  | .clear => (∅, .done)

end SpecMap

end Utils

end PomeloUdp
