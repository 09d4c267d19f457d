import PomeloUdp.Utils.LinkedList

/-!
# Iterating the sessions of a socket

A socket has a list of its sessions, and every session has a pointer to its socket and to its
entry in that list. `SocketSessions` is all of them; `Attached` says that the pointers belong
together, which is so in every run (`attached_run`).

`iteratorNext` and `iteratorLoad` follow the two functions that read the sessions. They agree
as long as the second one does not come to the end of the list: `iteratorLoad_iff`.
-/

namespace PomeloUdp

namespace Api

open Machine Utils

/-- The sockets `κ` with their lists of sessions, and `session->socket` and `session->entry` of
the sessions `ι`. -/
structure SocketSessions (κ ι : Type) where
  sessions : κ → LinkedList ι
  socket : ι → Option κ
  entry : ι → Option ℕ

/-- `pomelo_session_iterator_t`. -/
structure SessionIterator where
  state : Option ℕ
  signature : BitVec 64
  deriving DecidableEq, Repr

namespace SocketSessions

variable {κ ι : Type}

/-- The sockets behind `pomelo_socket_on_alloc`. -/
def create (element : κ → ℕ → ι) : SocketSessions κ ι where
  sessions k := .create (element k)
  socket _ := none
  entry _ := none

section Sessions

variable [DecidableEq κ] [DecidableEq ι]

/-- The list of a socket changes. -/
def setSessions (st : SocketSessions κ ι) (k : κ) (l : LinkedList ι) : SocketSessions κ ι :=
  { st with sessions := Function.update st.sessions k l }

/-- `pomelo_session_init` and `pomelo_socket_add_session`, for a session that the pool has.
`memory` says whether there is memory for a new entry. -/
def addSession (st : SocketSessions κ ι) (k : κ) (s : ι) (memory : Bool) : SocketSessions κ ι :=
  match st.socket s with
  | some _ => st
  | none =>
      let st := { st with
        socket := Function.update st.socket s (some k)
        entry := Function.update st.entry s none }
      let (l, entry) := (st.sessions k).pushBack memory s
      { st.setSessions k l with entry := Function.update st.entry s entry }

/-- `pomelo_session_cleanup`. -/
def cleanup (st : SocketSessions κ ι) (s : ι) : SocketSessions κ ι :=
  { st with socket := Function.update st.socket s none }

/-- `pomelo_socket_remove_session`, and the session is released. -/
def removeSession (st : SocketSessions κ ι) (s : ι) : SocketSessions κ ι :=
  match st.socket s with
  | none => st
  | some k =>
      match st.entry s with
      | none => st.cleanup s
      | some entry =>
          { st.setSessions k ((st.sessions k).remove entry) with
            entry := Function.update st.entry s none }.cleanup s

/-- The loop of `pomelo_socket_stop_deferred` that releases the sessions; `fuel` counts its
rounds. -/
def stopFrom (k : κ) : ℕ → SocketSessions κ ι → SocketSessions κ ι
  | 0, st => st
  | fuel + 1, st =>
      match (st.sessions k).popFront with
      | (_, none) => st
      | (l, some s) => stopFrom k fuel ((st.setSessions k l).cleanup s)

/-- `pomelo_socket_stop_deferred`. -/
def stop (st : SocketSessions κ ι) (k : κ) : SocketSessions κ ι :=
  stopFrom k ((st.sessions k).size + 1) st

/-- What happens to the sessions. -/
inductive Event (κ ι : Type) where
  | added (k : κ) (s : ι) (memory : Bool)
  | removed (s : ι)
  | stopped (k : κ)

/-- One event. -/
def step (st : SocketSessions κ ι) : Event κ ι → SocketSessions κ ι
  | .added k s memory => st.addSession k s memory
  | .removed s => st.removeSession s
  | .stopped k => st.stop k

end Sessions

section Iterators

/-- `pomelo_session_iterator_init`. -/
def iteratorInit (st : SocketSessions κ ι) (k : κ) : SessionIterator :=
  ⟨(st.sessions k).front, (st.sessions k).modCount⟩

/-- What `pomelo_session_iterator_next` returns: a session with the iterator behind it, `0`
without a session, or `-1`. -/
inductive Next (ι : Type) where
  | session (s : ι) (it : SessionIterator)
  | noMore
  | invalid

/-- `pomelo_session_iterator_next` of an iterator over the sessions of `k`. -/
def iteratorNext (st : SocketSessions κ ι) (k : κ) (it : SessionIterator) : Next ι :=
  match it.state with
  | none => .noMore
  | some entry =>
      let s := (st.sessions k).element entry
      match st.socket s with
      | none => .invalid
      | some socket =>
          if it.signature ≠ (st.sessions socket).modCount then .invalid
          else .session s { it with state := (st.sessions k).next entry }

/-- The loop of `pomelo_session_iterator_load`, with an entry whose session was read: the
sessions that it stores and the entry behind them. There is no result where the session of a
null pointer is read. -/
def loadFrom (l : LinkedList ι) : ℕ → ℕ → Option (List ι × ℕ)
  | 0, entry => some ([], entry)
  | maxElements + 1, entry =>
      match l.next entry with
      | none => none
      | some next => (loadFrom l maxElements next).map fun (sessions, behind) =>
          (l.element entry :: sessions, behind)

/-- `pomelo_session_iterator_load` of an iterator over the sessions of `k`. -/
def iteratorLoad (st : SocketSessions κ ι) (k : κ) (maxElements : ℕ) (it : SessionIterator) :
    Option (List ι × SessionIterator) :=
  match it.state with
  | none => some ([], it)
  | some entry =>
      match st.socket ((st.sessions k).element entry) with
      | none => some ([], it)
      | some socket =>
          if it.signature ≠ (st.sessions socket).modCount then some ([], it)
          else (loadFrom (st.sessions k) maxElements entry).map fun (sessions, behind) =>
            (sessions, { it with state := some behind })

end Iterators

section Specification

/-- The sessions that repeated calls of `pomelo_session_iterator_next` return, at most
`maxElements` of them, and the iterator behind them. -/
def nexts (st : SocketSessions κ ι) (k : κ) : ℕ → SessionIterator → List ι × SessionIterator
  | 0, it => ([], it)
  | maxElements + 1, it =>
      match st.iteratorNext k it with
      | .session s it =>
          let (sessions, it) := st.nexts k maxElements it
          (s :: sessions, it)
      | _ => ([], it)

/-- The sessions that repeated calls of `pomelo_session_iterator_load` return up to the one
that returns `0`; `fuel` counts the calls. -/
def loads (st : SocketSessions κ ι) (k : κ) (maxElements : ℕ) :
    ℕ → SessionIterator → Option (List ι)
  | 0, _ => none
  | fuel + 1, it =>
      match st.iteratorLoad k maxElements it with
      | none => none
      | some ([], _) => some []
      | some (sessions, it) => (st.loads k maxElements fuel it).map (sessions ++ ·)

/-- The entries of the list of a socket. -/
def entries (st : SocketSessions κ ι) (k : κ) : List ℕ :=
  LinkedList.entriesFrom (st.sessions k).next (st.sessions k).size (st.sessions k).front

/-- An iterator that stands before the `position`-th session, or behind the last one. -/
def iteratorAt (st : SocketSessions κ ι) (k : κ) (signature : BitVec 64) (position : ℕ) :
    SessionIterator :=
  ⟨(st.entries k)[position]?, signature⟩

end Specification

section Attached

variable {st : SocketSessions κ ι} {contents : κ → List (ℕ × ι)}

/-- The lists of the sockets hold the sessions that point to them, in the entries that these
point to. -/
structure Attached (st : SocketSessions κ ι) (contents : κ → List (ℕ × ι)) : Prop where
  held : ∀ k, (st.sessions k).Held (contents k)
  listed : ∀ k x, x ∈ contents k → st.socket x.2 = some k ∧ st.entry x.2 = some x.1
  linked : ∀ s k entry, st.socket s = some k → st.entry s = some entry → (entry, s) ∈ contents k

theorem attached_create (element : κ → ℕ → ι) : Attached (create element) fun _ => [] where
  held k := LinkedList.held_create (element k)
  listed _ _ h := nomatch h
  linked _ _ _ h := nomatch h

theorem Attached.eq_of_snd_eq (h : Attached st contents) {k k' : κ} {x y : ℕ × ι}
    (hx : x ∈ contents k) (hy : y ∈ contents k') (heq : y.2 = x.2) : k' = k ∧ y = x := by
  obtain ⟨hsocket, hentry⟩ := h.listed k x hx
  obtain ⟨hsocket', hentry'⟩ := h.listed k' y hy
  rw [heq] at hsocket' hentry'
  exact ⟨Option.some.inj (hsocket'.symm.trans hsocket),
    Prod.ext (Option.some.inj (hentry'.symm.trans hentry)) heq⟩

variable [DecidableEq κ] [DecidableEq ι]

theorem Attached.released (h : Attached st contents) {k : κ} {x : ℕ × ι} (hx : x ∈ contents k)
    {l : LinkedList ι} {c : List (ℕ × ι)} (hheld : l.Held c)
    (hmem : ∀ y, y ∈ c ↔ y ∈ contents k ∧ y ≠ x) {entry : ι → Option ℕ}
    (hentry : ∀ s, s ≠ x.2 → entry s = st.entry s) :
    Attached ⟨Function.update st.sessions k l, Function.update st.socket x.2 none, entry⟩
      (Function.update contents k c) := by
  have hold : ∀ k' y, y ∈ Function.update contents k c k' ↔
      y ∈ contents k' ∧ (k' = k → y ≠ x) := by
    intro k' y
    by_cases hk : k' = k
    · subst hk
      rw [Function.update_self, hmem]
      simp
    · rw [Function.update_of_ne hk]
      simp [hk]
  refine ⟨fun k' => ?_, fun k' y hy => ?_, fun s k' e hsocket hlinked => ?_⟩
  · by_cases hk : k' = k
    · subst hk
      dsimp only
      rwa [Function.update_self, Function.update_self]
    · dsimp only
      rw [Function.update_of_ne hk, Function.update_of_ne hk]
      exact h.held k'
  · obtain ⟨hy, hne⟩ := (hold k' y).mp hy
    have hne : y.2 ≠ x.2 := by
      intro heq
      obtain ⟨hk, hyx⟩ := h.eq_of_snd_eq hx hy heq
      exact hne hk hyx
    obtain ⟨hsocket, hentry'⟩ := h.listed k' y hy
    dsimp only
    rw [Function.update_of_ne hne, hentry _ hne]
    exact ⟨hsocket, hentry'⟩
  · have hne : s ≠ x.2 := by
      rintro rfl
      dsimp only at hsocket
      rw [Function.update_self] at hsocket
      cases hsocket
    dsimp only at hsocket hlinked
    rw [Function.update_of_ne hne] at hsocket
    rw [hentry _ hne] at hlinked
    refine (hold k' _).mpr ⟨h.linked s k' e hsocket hlinked, fun _ heq => hne ?_⟩
    rw [← heq]

omit [DecidableEq κ] [DecidableEq ι] in
theorem Attached.ne_of_released (h : Attached st contents) {s : ι} (hsocket : st.socket s = none)
    {k : κ} {x : ℕ × ι} (hx : x ∈ contents k) : x.2 ≠ s := by
  intro heq
  have hlisted := (h.listed k x hx).1
  rw [heq, hsocket] at hlisted
  cases hlisted

omit [DecidableEq κ] in
theorem Attached.unlisted (h : Attached st contents) {s : ι} (hsocket : st.socket s = none)
    (k : κ) : Attached ⟨st.sessions, Function.update st.socket s (some k),
      Function.update st.entry s none⟩ contents := by
  refine ⟨h.held, fun k' x hx => ?_, fun s' k' e hsocket' hentry => ?_⟩
  · have hne := h.ne_of_released hsocket hx
    dsimp only
    rw [Function.update_of_ne hne, Function.update_of_ne hne]
    exact h.listed k' x hx
  · dsimp only at hsocket' hentry
    by_cases hs : s' = s
    · subst hs
      rw [Function.update_self] at hentry
      cases hentry
    · rw [Function.update_of_ne hs] at hsocket' hentry
      exact h.linked s' k' e hsocket' hentry

theorem Attached.pushed (h : Attached st contents) {s : ι} (hsocket : st.socket s = none) {k : κ}
    {entry : ℕ} {l : LinkedList ι} (hheld : l.Held (contents k ++ [(entry, s)])) :
    Attached ⟨Function.update st.sessions k l, Function.update st.socket s (some k),
      Function.update st.entry s (some entry)⟩
      (Function.update contents k (contents k ++ [(entry, s)])) := by
  have hold : ∀ k' x, x ∈ Function.update contents k (contents k ++ [(entry, s)]) k' ↔
      x ∈ contents k' ∨ (k' = k ∧ x = (entry, s)) := by
    intro k' x
    by_cases hk : k' = k
    · subst hk
      simp
    · simp [hk]
  refine ⟨fun k' => ?_, fun k' x hx => ?_, fun s' k' e hsocket' hentry => ?_⟩
  · by_cases hk : k' = k
    · subst hk
      dsimp only
      rwa [Function.update_self, Function.update_self]
    · dsimp only
      rw [Function.update_of_ne hk, Function.update_of_ne hk]
      exact h.held k'
  · dsimp only
    rcases (hold k' x).mp hx with hx | ⟨rfl, rfl⟩
    · have hne := h.ne_of_released hsocket hx
      rw [Function.update_of_ne hne, Function.update_of_ne hne]
      exact h.listed k' x hx
    · exact ⟨Function.update_self .., Function.update_self ..⟩
  · dsimp only at hsocket' hentry
    by_cases hs : s' = s
    · subst hs
      rw [Function.update_self] at hsocket' hentry
      obtain rfl := Option.some.inj hsocket'
      obtain rfl := Option.some.inj hentry
      exact (hold _ _).mpr (.inr ⟨rfl, rfl⟩)
    · rw [Function.update_of_ne hs] at hsocket' hentry
      exact (hold k' _).mpr (.inl (h.linked s' k' e hsocket' hentry))

theorem Attached.addSession (h : Attached st contents) (k : κ) (s : ι) (memory : Bool) :
    ∃ contents', Attached (st.addSession k s memory) contents' := by
  unfold SocketSessions.addSession
  cases hsocket : st.socket s with
  | some _ => exact ⟨contents, h⟩
  | none =>
      dsimp only
      rcases LinkedList.pushBack_eq (st.sessions k) memory s with hpush | hpush
      · rw [hpush]
        refine ⟨contents, ?_⟩
        simp only [setSessions, Function.update_idem, Function.update_eq_self]
        exact h.unlisted hsocket k
      · obtain ⟨entry, l, hpush', -, hheld⟩ := (h.held k).pushBack s
        rw [hpush, hpush']
        refine ⟨Function.update contents k (contents k ++ [(entry, s)]), ?_⟩
        simp only [setSessions, Function.update_idem]
        exact h.pushed hsocket hheld

theorem Attached.removeSession (h : Attached st contents) (s : ι) :
    ∃ contents', Attached (st.removeSession s) contents' := by
  unfold SocketSessions.removeSession
  cases hsocket : st.socket s with
  | none => exact ⟨contents, h⟩
  | some k =>
      cases hentry : st.entry s with
      | none =>
          refine ⟨contents, h.held, fun k' x hx => ?_, fun s' k' e hsocket' hentry' => ?_⟩
          · have hne : x.2 ≠ s := by
              intro heq
              have hlisted := (h.listed k' x hx).2
              rw [heq, hentry] at hlisted
              cases hlisted
            dsimp only [cleanup]
            rw [Function.update_of_ne hne]
            exact h.listed k' x hx
          · dsimp only [cleanup] at hsocket' hentry'
            by_cases hs : s' = s
            · subst hs
              rw [Function.update_self] at hsocket'
              cases hsocket'
            · rw [Function.update_of_ne hs] at hsocket'
              exact h.linked s' k' e hsocket' hentry'
      | some entry =>
          have hx := h.linked s k entry hsocket hentry
          have hmem : ∀ y, y ∈ (contents k).filter (fun y => y.1 ≠ entry) ↔
              y ∈ contents k ∧ y ≠ (entry, s) := by
            intro y
            rw [List.mem_filter, decide_eq_true_eq]
            refine and_congr_right fun hy => not_congr ⟨fun heq => ?_, fun heq => by rw [heq]⟩
            have hy' := (h.held k).represents.element y hy
            have hx' := (h.held k).represents.element _ hx
            exact Prod.ext heq (by rw [← hy', heq, hx'])
          exact ⟨_, h.released hx ((h.held k).remove hx) hmem
            fun s' hs => Function.update_of_ne hs _ _⟩

theorem Attached.stopFrom (h : Attached st contents) (k : κ) (fuel : ℕ) :
    ∃ contents', Attached (SocketSessions.stopFrom k fuel st) contents' := by
  induction fuel generalizing st contents with
  | zero => exact ⟨contents, h⟩
  | succ fuel ih =>
      rw [SocketSessions.stopFrom]
      have hheld := h.held k
      cases hc : contents k with
      | nil =>
          rw [hc] at hheld
          rw [hheld.popFront_nil]
          exact ⟨contents, h⟩
      | cons x c =>
          rw [hc] at hheld
          obtain ⟨l, hpop, hpopped⟩ := hheld.popFront_cons
          rw [hpop]
          have hmem : ∀ y, y ∈ c ↔ y ∈ contents k ∧ y ≠ x := by
            intro y
            have hx : x ∉ c := (List.nodup_cons.mp (List.Nodup.of_map _ hheld.nodup)).1
            rw [hc, List.mem_cons]
            constructor
            · exact fun hy => ⟨.inr hy, ne_of_mem_of_not_mem hy hx⟩
            · exact fun hy => hy.1.resolve_left hy.2
          exact ih (h.released (hc ▸ List.mem_cons_self) hpopped hmem fun _ _ => rfl)

theorem Attached.step (h : Attached st contents) (e : Event κ ι) :
    ∃ contents', Attached (st.step e) contents' := by
  cases e with
  | added k s memory => exact h.addSession k s memory
  | removed s => exact h.removeSession s
  | stopped k => exact h.stopFrom k _

/-- In every run the lists of the sockets hold the sessions that point to them. -/
theorem attached_run (element : κ → ℕ → ι) (events : List (Event κ ι)) :
    ∃ contents, Attached (run step (create element) events) contents := by
  induction events using List.reverseRecOn with
  | nil => exact ⟨_, attached_create element⟩
  | append_singleton events e ih =>
      obtain ⟨contents, h⟩ := ih
      rw [run_append]
      exact h.step e

end Attached

section Loading

variable {l : LinkedList ι} {q : List (ℕ × ι)}

/-- The loop of `pomelo_session_iterator_load` from the `i`-th entry on: it comes to a null
pointer exactly if it would store the last session. -/
theorem loadFrom_eq (hheld : l.Held q) (maxElements : ℕ) {i : ℕ} {x : ℕ × ι}
    (hx : q[i]? = some x) :
    loadFrom l maxElements x.1 =
      (q[i + maxElements]?).map fun y =>
        (((q.drop i).take maxElements).map Prod.snd, y.1) := by
  induction maxElements generalizing i x with
  | zero => simp [loadFrom, hx]
  | succ maxElements ih =>
      have hnext : l.next x.1 = (q[i + 1]?).map Prod.fst := by
        have := hheld.represents.linked.next_getElem (k := i) (x := x.1) (by simp [hx])
        simpa using this
      have helement : l.element x.1 = x.2 := hheld.represents.element x (List.mem_of_getElem? hx)
      have hdrop : q.drop i = x :: q.drop (i + 1) := by
        obtain ⟨hi, rfl⟩ := List.getElem?_eq_some_iff.mp hx
        exact List.drop_eq_getElem_cons hi
      rw [loadFrom, hnext, helement, hdrop, List.take_succ_cons, List.map_cons]
      cases hy : q[i + 1]? with
      | none =>
          rw [List.getElem?_eq_none_iff] at hy
          rw [List.getElem?_eq_none_iff.mpr (by omega)]
          rfl
      | some y =>
          have heq : i + (maxElements + 1) = i + 1 + maxElements := by omega
          rw [Option.map_some]
          dsimp only
          rw [ih hy, Option.map_map, heq]
          rfl

variable {st : SocketSessions κ ι} {contents : κ → List (ℕ × ι)} (k : κ)

theorem Attached.entries_eq (h : Attached st contents) : st.entries k = (contents k).map Prod.fst :=
  (h.held k).entriesFrom_eq

theorem Attached.iteratorNext_eq (h : Attached st contents) (n : ℕ) :
    st.iteratorNext k (st.iteratorAt k (st.sessions k).modCount n) =
      match (contents k)[n]? with
      | none => .noMore
      | some x => .session x.2 (st.iteratorAt k (st.sessions k).modCount (n + 1)) := by
  have hstate : ∀ n : ℕ, (st.entries k)[n]? = ((contents k)[n]?).map Prod.fst := by
    intro n
    rw [h.entries_eq, List.getElem?_map]
  rw [iteratorNext, iteratorAt, iteratorAt]
  dsimp only
  rw [hstate, hstate]
  cases hx : (contents k)[n]? with
  | none => rfl
  | some x =>
      have hmem := List.mem_of_getElem? hx
      have hnext := (h.held k).represents.linked.next_getElem (k := n) (x := x.1) (by simp [hx])
      rw [List.getElem?_map] at hnext
      simp [(h.held k).represents.element x hmem, (h.listed k x hmem).1, hnext]

/-- The calls of `pomelo_session_iterator_next` that `pomelo_session_iterator_load` stands
for. -/
theorem Attached.nexts_eq (h : Attached st contents) (maxElements n : ℕ) :
    st.nexts k maxElements (st.iteratorAt k (st.sessions k).modCount n) =
      ((((contents k).drop n).take maxElements).map Prod.snd,
        st.iteratorAt k (st.sessions k).modCount (n + maxElements)) := by
  induction maxElements generalizing n with
  | zero => simp [nexts]
  | succ maxElements ih =>
      rw [nexts, h.iteratorNext_eq]
      cases hx : (contents k)[n]? with
      | none =>
          rw [List.getElem?_eq_none_iff] at hx
          have hstate : ∀ m, n ≤ m → (st.entries k)[m]? = none := by
            intro m hm
            rw [h.entries_eq, List.getElem?_eq_none_iff, List.length_map]
            omega
          simp [List.drop_of_length_le hx, iteratorAt, hstate n le_rfl,
            hstate (n + (maxElements + 1)) (Nat.le_add_right ..)]
      | some x =>
          obtain ⟨hn, rfl⟩ := List.getElem?_eq_some_iff.mp hx
          dsimp only
          rw [ih, List.drop_eq_getElem_cons hn, List.take_succ_cons, List.map_cons]
          have heq : n + 1 + maxElements = n + (maxElements + 1) := by omega
          rw [heq]

/-- What `pomelo_session_iterator_load` does with an iterator that is up to date and not behind
the last session. -/
theorem Attached.iteratorLoad_eq (h : Attached st contents) (maxElements n : ℕ)
    (hn : n < (contents k).length) :
    st.iteratorLoad k maxElements (st.iteratorAt k (st.sessions k).modCount n) =
      if n + maxElements < (contents k).length then
        some (st.nexts k maxElements (st.iteratorAt k (st.sessions k).modCount n))
      else none := by
  have hx : (contents k)[n]? = some (contents k)[n] := List.getElem?_eq_getElem hn
  have hmem := List.mem_of_getElem? hx
  have hstate : (st.entries k)[n]? = some (contents k)[n].1 := by
    rw [h.entries_eq, List.getElem?_map, hx, Option.map_some]
  rw [h.nexts_eq, iteratorLoad, iteratorAt]
  dsimp only
  rw [hstate]
  dsimp only
  rw [(h.held k).represents.element _ hmem, (h.listed k _ hmem).1]
  dsimp only
  rw [if_neg (not_not.mpr rfl), loadFrom_eq (h.held k) maxElements hx, Option.map_map]
  split
  next hlt =>
    rw [List.getElem?_eq_getElem hlt]
    simp [iteratorAt, h.entries_eq, hlt]
  next hge =>
    rw [List.getElem?_eq_none_iff.mpr (by omega)]
    rfl

theorem iteratorLoad_of_stale (h : Attached st contents) {signature : BitVec 64}
    (hstale : signature ≠ (st.sessions k).modCount) (maxElements n : ℕ) :
    st.iteratorLoad k maxElements (st.iteratorAt k signature n) =
      some (st.nexts k maxElements (st.iteratorAt k signature n)) := by
  have hstate : (st.entries k)[n]? = ((contents k)[n]?).map Prod.fst := by
    rw [h.entries_eq, List.getElem?_map]
  cases hx : (contents k)[n]? with
  | none =>
      rw [hx, Option.map_none] at hstate
      cases maxElements <;> simp [iteratorLoad, nexts, iteratorNext, iteratorAt, hstate]
  | some x =>
      rw [hx, Option.map_some] at hstate
      have hmem := List.mem_of_getElem? hx
      have helement := (h.held k).represents.element x hmem
      have hsocket := (h.listed k x hmem).1
      cases maxElements <;>
        simp [iteratorLoad, nexts, iteratorNext, iteratorAt, hstate, helement, hsocket, hstale]

theorem Attached.iteratorLoad_eq_nexts_iff (h : Attached st contents) (signature : BitVec 64)
    (maxElements n : ℕ) :
    st.iteratorLoad k maxElements (st.iteratorAt k signature n) =
        some (st.nexts k maxElements (st.iteratorAt k signature n)) ↔
      signature ≠ (st.sessions k).modCount ∨ (st.sessions k).size ≤ n ∨
        n + maxElements < (st.sessions k).size := by
  by_cases hstale : signature = (st.sessions k).modCount
  · subst hstale
    rw [(h.held k).represents.size, or_iff_right (not_not.mpr rfl)]
    by_cases hn : n < (contents k).length
    · rw [h.iteratorLoad_eq k maxElements n hn, or_iff_right (not_le.mpr hn)]
      split
      next hlt => exact iff_of_true rfl hlt
      next hge => exact iff_of_false nofun hge
    · refine iff_of_true ?_ (.inl (not_lt.mp hn))
      have hstate : (st.entries k)[n]? = none := by
        rw [h.entries_eq, List.getElem?_eq_none_iff, List.length_map]
        exact not_lt.mp hn
      cases maxElements <;> simp [iteratorLoad, nexts, iteratorNext, iteratorAt, hstate]
  · exact iff_of_true (iteratorLoad_of_stale k h hstale maxElements n) (.inl hstale)

theorem Attached.loads_eq_none (h : Attached st contents) {maxElements : ℕ}
    (hmax : 0 < maxElements) (fuel : ℕ) {n : ℕ} (hn : n < (contents k).length) :
    st.loads k maxElements fuel (st.iteratorAt k (st.sessions k).modCount n) = none := by
  induction fuel generalizing n with
  | zero => rfl
  | succ fuel ih =>
      rw [loads, h.iteratorLoad_eq k maxElements n hn]
      split_ifs with hlt
      · obtain ⟨max, rfl⟩ := Nat.exists_eq_succ_of_ne_zero hmax.ne'
        rw [h.nexts_eq, List.drop_eq_getElem_cons hn, Nat.succ_eq_add_one, List.take_succ_cons,
          List.map_cons]
        dsimp only
        rw [ih hlt, Option.map_none]
      · rfl

/-- The sessions of a socket. -/
def allSessions (st : SocketSessions κ ι) (k : κ) : List ι :=
  (st.entries k).map (st.sessions k).element

theorem Attached.loads_iff (h : Attached st contents) (maxElements : ℕ) :
    (∃ fuel, st.loads k maxElements fuel (st.iteratorInit k) = some (st.allSessions k)) ↔
      (st.sessions k).size = 0 := by
  have hinit : st.iteratorInit k = st.iteratorAt k (st.sessions k).modCount 0 := by
    rw [iteratorInit, iteratorAt, h.entries_eq, (h.held k).represents.linked.head_eq,
      List.head?_eq_getElem?]
  rw [hinit, (h.held k).represents.size]
  constructor
  · rintro ⟨fuel, hloads⟩
    by_contra hne
    have hn := Nat.pos_of_ne_zero hne
    rcases Nat.eq_zero_or_pos maxElements with rfl | hmax
    · cases fuel with
      | zero => cases hloads
      | succ fuel =>
          rw [loads, h.iteratorLoad_eq k 0 0 hn, if_pos (by simpa using hn), h.nexts_eq] at hloads
          simp only [List.take_zero, List.map_nil, Option.some.injEq] at hloads
          have hlength := congrArg List.length hloads
          rw [allSessions, h.entries_eq, List.length_map, List.length_map,
            List.length_nil] at hlength
          exact hne hlength.symm
    · rw [h.loads_eq_none k hmax fuel hn] at hloads
      cases hloads
  · intro hzero
    have hnil := List.length_eq_zero_iff.mp hzero
    refine ⟨1, ?_⟩
    simp [loads, iteratorLoad, iteratorAt, allSessions, h.entries_eq, hnil]

/-- In every run, for every iterator over the sessions of a socket: loading agrees with the
repeated calls for one session exactly if it does not come to the end of the list, and loading
until nothing is left gives every session once only where there is none. -/
theorem iteratorLoad_iff [DecidableEq κ] [DecidableEq ι] (element : κ → ℕ → ι)
    (events : List (Event κ ι)) (k : κ) :
    let st := run step (create element) events
    (∀ (signature : BitVec 64) (maxElements n : ℕ),
      st.iteratorLoad k maxElements (st.iteratorAt k signature n) =
          some (st.nexts k maxElements (st.iteratorAt k signature n)) ↔
        signature ≠ (st.sessions k).modCount ∨ (st.sessions k).size ≤ n ∨
          n + maxElements < (st.sessions k).size) ∧
      ∀ maxElements : ℕ,
        (∃ fuel, st.loads k maxElements fuel (st.iteratorInit k) = some (st.allSessions k)) ↔
          (st.sessions k).size = 0 := by
  obtain ⟨contents, h⟩ := attached_run element events
  exact ⟨h.iteratorLoad_eq_nexts_iff k, h.loads_iff k⟩

/-- One session, which is loaded into an array of one. -/
theorem not_iteratorLoad_last :
    ¬ ∀ (events : List (Event Unit Bool)) (signature : BitVec 64) (maxElements n : ℕ),
      let st := run step (create fun _ _ => false) events
      st.iteratorLoad () maxElements (st.iteratorAt () signature n) =
        some (st.nexts () maxElements (st.iteratorAt () signature n)) := by
  intro h
  have hlast := h [.added () true true] 1 1 0
  revert hlast
  decide

end Loading

end SocketSessions

end Api

end PomeloUdp
