import Mathlib.Data.Set.Card
import PomeloUdp.Protocol.ServerStep

/-!
# The peers of the address map

`Table` is the form of the peer table that the handlers keep. Read from the
address map it says that every peer of the map is in exactly one list, which is
the list of its state, through the entry the peer holds and under its own
address. Counting the entries of the lists then counts the addresses of the map.
-/

namespace PomeloUdp

namespace Protocol

open Machine

namespace Server

/-- The entries of the five lists. -/
def entries (s : Server) : List PeerEntry :=
  s.lists .requesting ++ s.lists .challenging ++ s.lists .denied ++ s.lists .connected ++
    s.lists .disconnecting

/-- A peer is listed once: in the list of its state, through its entry. -/
structure Listed (s : Server) (p : PeerId) (name : PeerListName) (x : PeerEntry) : Prop where
  state : (s.peers p).state = name.state
  entry : (s.peers p).entry = some x
  only : ∀ name' y, y ∈ s.lists name' ∧ y.peer = p ↔ name' = name ∧ y = x
  once : (s.lists name).count x = 1

/-- The address map and the lists hold the same peers, each where it belongs. -/
structure PeerTable (s : Server) : Prop where
  listed : ∀ a p, s.peerAddressMap a = some p →
    (s.peers p).address = some a ∧ ∃ name x, Listed s p name x
  size : Set.encard {a | s.peerAddressMap a ≠ none} =
    ((s.lists .requesting).length + (s.lists .challenging).length + (s.lists .denied).length +
      (s.lists .connected).length + (s.lists .disconnecting).length : ℕ)

theorem mem_entries {s : Server} {x : PeerEntry} : x ∈ s.entries ↔ ∃ name, x ∈ s.lists name := by
  simp only [entries, List.mem_append]
  constructor
  · rintro ((((h | h) | h) | h) | h) <;> exact ⟨_, h⟩
  · rintro ⟨name, h⟩
    cases name <;> simp [h]

section

variable {s : Server}

theorem Table.listedAt (h : Table s) {p : PeerId} {name : PeerListName}
    (hp : (s.peers p).state = name.state) : ∃ x, Listed s p name x := by
  obtain ⟨x, hentry, hmem, rfl⟩ := h.entry_of_state hp
  refine ⟨x, hp, hentry, fun name' y => ⟨?_, ?_⟩, List.count_eq_one_of_mem (h.nodup name) hmem⟩
  · rintro ⟨hy, hpeer⟩
    obtain rfl := h.entry_unique hy hmem hpeer
    exact ⟨h.name_of_mem hy hp, rfl⟩
  · rintro ⟨rfl, rfl⟩
    exact ⟨hmem, rfl⟩

theorem Table.disjoint (h : Table s) {name name' : PeerListName} (hne : name ≠ name') :
    List.Disjoint (s.lists name) (s.lists name') := by
  intro x hx hx'
  exact hne (h.name_of_mem hx (h.member_state name' x hx'))

theorem Table.nodup_entries (h : Table s) : s.entries.Nodup := by
  have hdisjoint : ∀ name name', name ≠ name' → List.Disjoint (s.lists name) (s.lists name') :=
    fun _ _ hne => h.disjoint hne
  simp [entries, List.nodup_append', h.nodup, hdisjoint]

theorem Table.encard_addresses (h : Table s) :
    Set.encard {a | s.peerAddressMap a ≠ none} = (s.entries.length : ℕ) := by
  have himage : some '' {a | s.peerAddressMap a ≠ none} =
      (fun x : PeerEntry => (s.peers x.peer).address) '' {x | x ∈ s.entries} := by
    ext address
    constructor
    · rintro ⟨a, ha, rfl⟩
      obtain ⟨p, hp⟩ := Option.ne_none_iff_exists'.mp ha
      obtain ⟨haddress, name, hname⟩ := h.mapped a p hp
      obtain ⟨x, hx, rfl⟩ := h.listed p name hname
      exact ⟨x, mem_entries.mpr ⟨name, hx⟩, haddress⟩
    · rintro ⟨x, hx, rfl⟩
      obtain ⟨name, hx⟩ := mem_entries.mp hx
      obtain ⟨a, haddress, hmapped⟩ := h.member_mapped name x hx
      exact ⟨a, by simp [hmapped], haddress.symm⟩
  have hinjective : Set.InjOn (fun x : PeerEntry => (s.peers x.peer).address)
      {x | x ∈ s.entries} := by
    intro x hx y hy hxy
    obtain ⟨name, hx⟩ := mem_entries.mp hx
    obtain ⟨name', hy⟩ := mem_entries.mp hy
    obtain ⟨a, haddress, hmapped⟩ := h.member_mapped name x hx
    obtain ⟨b, haddress', hmapped'⟩ := h.member_mapped name' y hy
    obtain rfl : a = b := Option.some.inj (haddress.symm.trans (hxy.trans haddress'))
    exact h.entry_unique hx hy (Option.some.inj (hmapped.symm.trans hmapped'))
  have hcount : Set.encard {x | x ∈ s.entries} = (s.entries.length : ℕ) := by
    rw [← List.toFinset_card_of_nodup h.nodup_entries, ← Set.encard_coe_eq_coe_finsetCard,
      List.coe_toFinset]
  rw [← (Option.some_injective Address).encard_image, himage, hinjective.encard_image, hcount]

theorem Table.peerTable (h : Table s) : PeerTable s where
  listed a p hp := by
    obtain ⟨haddress, name, hname⟩ := h.mapped a p hp
    obtain ⟨x, hx⟩ := h.listedAt hname
    exact ⟨haddress, name, x, hx⟩
  size := by
    rw [h.encard_addresses]
    simp only [entries, List.length_append]

end

/-- The peer table is well formed in every state a server reaches. -/
theorem peerTable_run (o : ServerOptions) (is : List Input) :
    PeerTable (run step (start o) is) := by
  have hrun : ∀ is s, Table s → Named s → Table (run step s is) := by
    intro is
    induction is with
    | nil => exact fun s htable _ => htable
    | cons i is ih =>
        intro s htable hnamed
        obtain ⟨htable', hnamed'⟩ := table_step htable hnamed i
        exact ih _ htable' hnamed'
  exact (hrun is _ (table_start o) (named_start o)).peerTable

end Server

end Protocol

end PomeloUdp
