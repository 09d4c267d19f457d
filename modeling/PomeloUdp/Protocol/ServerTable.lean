import PomeloUdp.Protocol.Server

/-!
# The table of peers

`Table` says how the peer lists, the address map and the fields of the peers fit
together: the peers of a list are those in its state, each once and through the
entry the peer holds, and the address map leads to them. What the handlers do
between two such states is either invisible to the table (`SameTable`), a new
peer, a move from one list to another, or a release.
-/

namespace PomeloUdp

namespace Protocol

namespace Server

/-- The peer lists, the address map and the fields of the peers agree. -/
structure Table (s : Server) : Prop where
  nodup : ∀ name, (s.lists name).Nodup
  member_state : ∀ name, ∀ x ∈ s.lists name, (s.peers x.peer).state = name.state
  member_entry : ∀ name, ∀ x ∈ s.lists name, (s.peers x.peer).entry = some x
  member_mapped : ∀ name, ∀ x ∈ s.lists name,
    ∃ a, (s.peers x.peer).address = some a ∧ s.peerAddressMap a = some x.peer
  listed : ∀ p name, (s.peers p).state = name.state → ∃ x ∈ s.lists name, x.peer = p
  mapped : ∀ a p, s.peerAddressMap a = some p →
    (s.peers p).address = some a ∧ ∃ name : PeerListName, (s.peers p).state = name.state
  named : ∀ name, ∀ x ∈ s.lists name, x.peer ≤ s.tick

theorem state_injective : Function.Injective PeerListName.state := by
  intro name name' h
  cases name <;> cases name' <;> first | rfl | exact absurd h (by decide)

theorem state_ne_disconnected (name : PeerListName) : name.state ≠ .disconnected := by
  cases name <;> decide

/-- Two servers with the same table: the lists, the map and the fields of the
peers that `Table` reads. -/
structure SameTable (s t : Server) : Prop where
  lists : t.lists = s.lists
  map : t.peerAddressMap = s.peerAddressMap
  tick : t.tick = s.tick
  state : ∀ p, (t.peers p).state = (s.peers p).state
  entry : ∀ p, (t.peers p).entry = (s.peers p).entry
  address : ∀ p, (t.peers p).address = (s.peers p).address

theorem SameTable.refl (s : Server) : SameTable s s :=
  ⟨rfl, rfl, rfl, fun _ => rfl, fun _ => rfl, fun _ => rfl⟩

theorem SameTable.trans {s t u : Server} (h : SameTable s t) (h' : SameTable t u) :
    SameTable s u :=
  ⟨h'.lists.trans h.lists, h'.map.trans h.map, h'.tick.trans h.tick,
    fun p => (h'.state p).trans (h.state p), fun p => (h'.entry p).trans (h.entry p),
    fun p => (h'.address p).trans (h.address p)⟩

theorem Table.of_same {s t : Server} (h : Table s) (hst : SameTable s t) : Table t := by
  obtain ⟨hlists, hmap, htick, hstate, hentry, haddress⟩ := hst
  constructor
  · intro name
    rw [hlists]
    exact h.nodup name
  · intro name x hx
    rw [hlists] at hx
    rw [hstate]
    exact h.member_state name x hx
  · intro name x hx
    rw [hlists] at hx
    rw [hentry]
    exact h.member_entry name x hx
  · intro name x hx
    rw [hlists] at hx
    rw [haddress, hmap]
    exact h.member_mapped name x hx
  · intro p name hp
    rw [hstate] at hp
    rw [hlists]
    exact h.listed p name hp
  · intro a p hp
    rw [hmap] at hp
    rw [haddress]
    simp only [hstate]
    exact h.mapped a p hp
  · intro name x hx
    rw [hlists] at hx
    rw [htick]
    exact h.named name x hx

theorem sameTable_modifyPeer (s : Server) (p : PeerId) (f : Peer → Peer)
    (hstate : (f (s.peers p)).state = (s.peers p).state)
    (hentry : (f (s.peers p)).entry = (s.peers p).entry)
    (haddress : (f (s.peers p)).address = (s.peers p).address) :
    SameTable s (s.modifyPeer p f) := by
  refine ⟨rfl, rfl, rfl, ?_, ?_, ?_⟩ <;>
  · intro q
    by_cases hq : q = p
    · subst hq
      simpa [modifyPeer]
    · simp [modifyPeer, Function.update_of_ne hq]

theorem sameTable_of_eq {s t : Server} (hlists : t.lists = s.lists)
    (hmap : t.peerAddressMap = s.peerAddressMap) (htick : t.tick = s.tick)
    (hpeers : t.peers = s.peers) : SameTable s t :=
  ⟨hlists, hmap, htick, fun _ => by rw [hpeers], fun _ => by rw [hpeers],
    fun _ => by rw [hpeers]⟩

theorem sameTable_note (s : Server) (effect : Effect) : SameTable s (s.note effect) :=
  sameTable_of_eq rfl rfl rfl rfl

theorem sameTable_setReceiver (s : Server) (id : ReceiverId) (receiver : Option Receiver) :
    SameTable s (s.setReceiver id receiver) := sameTable_of_eq rfl rfl rfl rfl

theorem sameTable_setSender (s : Server) (id : SenderId) (sender : Option Sender) :
    SameTable s (s.setSender id sender) := sameTable_of_eq rfl rfl rfl rfl

theorem sameTable_dispatch (env : Env) (s : Server) (p : PeerId) (source : SequenceSource)
    (header : Header) (body : PacketBody) :
    SameTable s (dispatch env s p source header body) := by
  simp only [dispatch]
  split
  · exact (sameTable_setSender s _ _).trans
      ((sameTable_modifyPeer _ p _ rfl rfl rfl).trans (sameTable_note _ _))
  · exact .refl s

theorem sameTable_sendOwn (env : Env) (s : Server) (p : PeerId) (type : PacketType)
    (body : PacketBody) : SameTable s (sendOwn env s p type body) := by
  have hnext := sameTable_modifyPeer s p (fun peer => peer.nextSequence.1) rfl rfl rfl
  simp only [sendOwn]
  split
  · exact hnext.trans (sameTable_dispatch env _ p _ _ _)
  · exact hnext

theorem sameTable_sendChallenge (env : Env) (s : Server) (p : PeerId)
    (token : Crypto.PrivateToken) : SameTable s (sendChallenge env s p token) := by
  have htake : SameTable s s.takeAnonymous.takeChallenge := sameTable_of_eq rfl rfl rfl rfl
  simp only [sendChallenge]
  split
  · exact htake.trans (sameTable_dispatch env _ p _ _ _)
  · exact htake

theorem sameTable_sendDenied (env : Env) (s : Server) (p : PeerId) :
    SameTable s (sendDenied env s p).1 := by
  have htake : SameTable s s.takeAnonymous := sameTable_of_eq rfl rfl rfl rfl
  simp only [sendDenied]
  split
  · exact htake.trans (sameTable_dispatch env _ p _ _ _)
  · exact htake

section Moves

variable {s : Server}

theorem Table.entry_of_state (h : Table s) {p : PeerId} {name : PeerListName}
    (hp : (s.peers p).state = name.state) :
    ∃ x, (s.peers p).entry = some x ∧ x ∈ s.lists name ∧ x.peer = p := by
  obtain ⟨x, hx, rfl⟩ := h.listed p name hp
  exact ⟨x, h.member_entry name x hx, hx, rfl⟩

theorem Table.name_of_mem (h : Table s) {name name' : PeerListName} {x : PeerEntry}
    (hx : x ∈ s.lists name) (hstate : (s.peers x.peer).state = name'.state) : name = name' :=
  state_injective ((h.member_state name x hx).symm.trans hstate)

theorem Table.entry_unique (h : Table s) {name name' : PeerListName} {x y : PeerEntry}
    (hx : x ∈ s.lists name) (hy : y ∈ s.lists name') (hxy : x.peer = y.peer) : x = y := by
  have hex := h.member_entry name x hx
  rw [hxy, h.member_entry name' y hy] at hex
  exact (Option.some.inj hex).symm

theorem Table.mem_erase_iff (h : Table s) {p : PeerId} {name : PeerListName} {x : PeerEntry}
    (hp : (s.peers p).state = name.state) (hentry : (s.peers p).entry = some x)
    {name' : PeerListName} {y : PeerEntry} :
    y ∈ Function.update s.lists name ((s.lists name).erase x) name' ↔
      y ∈ s.lists name' ∧ y.peer ≠ p := by
  obtain ⟨x', hx', hmem, hpeer⟩ := h.entry_of_state hp
  rw [hentry] at hx'
  obtain rfl := Option.some.inj hx'
  by_cases hname : name' = name
  · subst hname
    rw [Function.update_self, (h.nodup name').mem_erase_iff]
    constructor
    · rintro ⟨hne, hy⟩
      refine ⟨hy, ?_⟩
      rintro rfl
      exact hne (h.entry_unique hy hmem hpeer.symm)
    · rintro ⟨hy, hne⟩
      refine ⟨?_, hy⟩
      rintro rfl
      exact hne hpeer
  · rw [Function.update_of_ne hname]
    refine ⟨fun hy => ⟨hy, ?_⟩, And.left⟩
    rintro rfl
    exact hname (h.name_of_mem hy hp)

theorem unlink_eq (name : PeerListName) {p : PeerId} {x : PeerEntry}
    (h : (s.peers p).entry = some x) : s.unlink name p = s.removeEntry name x := by
  simp [unlink, h]

/-- The state without a peer in the list of its state. The peer itself is
between two lists. -/
structure Unlisted (s : Server) (p : PeerId) (t : Server) : Prop where
  peers : ∀ q, q ≠ p → t.peers q = s.peers q
  address : (t.peers p).address = (s.peers p).address
  map : t.peerAddressMap = s.peerAddressMap
  tick : t.tick = s.tick
  nodup : ∀ name, (t.lists name).Nodup
  mem_iff : ∀ name y, y ∈ t.lists name ↔ y ∈ s.lists name ∧ y.peer ≠ p

theorem Table.unlisted_removeEntry (h : Table s) {name : PeerListName} {x : PeerEntry}
    (hx : x ∈ s.lists name) : Unlisted s x.peer (s.removeEntry name x) := by
  refine ⟨fun _ _ => rfl, rfl, rfl, rfl, ?_, ?_⟩
  · intro name'
    by_cases hname : name' = name
    · subst hname
      simpa [removeEntry] using (h.nodup name').erase x
    · simpa [removeEntry, Function.update_of_ne hname] using h.nodup name'
  · intro name' y
    exact h.mem_erase_iff (h.member_state name x hx) (h.member_entry name x hx)

theorem Table.unlisted_unlink (h : Table s) {p : PeerId} {name : PeerListName}
    (hp : (s.peers p).state = name.state) : Unlisted s p (s.unlink name p) := by
  obtain ⟨x, hentry, hmem, rfl⟩ := h.entry_of_state hp
  rw [unlink_eq name hentry]
  exact h.unlisted_removeEntry hmem

theorem unlink_modifyPeer (s : Server) (name : PeerListName) (p : PeerId) (f : Peer → Peer)
    (hentry : (f (s.peers p)).entry = (s.peers p).entry) :
    (s.modifyPeer p f).unlink name p = (s.unlink name p).modifyPeer p f := by
  have hp : ((s.modifyPeer p f).peers p).entry = (s.peers p).entry := by
    simp [Server.modifyPeer, hentry]
  unfold unlink
  rw [hp]
  cases (s.peers p).entry with
  | none => rfl
  | some x => rfl

/-- A peer between two lists is pushed to one. -/
theorem Table.pushBack (h : Table s) {p : PeerId} {name : PeerListName}
    (hp : (s.peers p).state = name.state) {t : Server} (ht : Unlisted s p t)
    (name' : PeerListName) : Table (t.pushBack name' p) := by
  obtain ⟨x, hentry, hmem, hpeer⟩ := h.entry_of_state hp
  have hother : ∀ q, q ≠ p → ((t.pushBack name' p).peers q) = s.peers q := by
    intro q hq
    simp [Server.pushBack, Function.update_of_ne hq, ht.peers q hq]
  have hstate : ((t.pushBack name' p).peers p).state = name'.state := by simp [Server.pushBack]
  have hentry' : ((t.pushBack name' p).peers p).entry = some ⟨t.tick, p⟩ := by
    simp [Server.pushBack]
  have haddress : ((t.pushBack name' p).peers p).address = (s.peers p).address := by
    simp [Server.pushBack, ht.address]
  have hlists : ∀ name'' y, y ∈ (t.pushBack name' p).lists name'' ↔
      (y ∈ s.lists name'' ∧ y.peer ≠ p) ∨ (name'' = name' ∧ y = ⟨t.tick, p⟩) := by
    intro name'' y
    by_cases hname : name'' = name'
    · subst hname
      simp [Server.pushBack, ht.mem_iff]
    · simp [Server.pushBack, ht.mem_iff, hname]
  have hmap : (t.pushBack name' p).peerAddressMap = s.peerAddressMap := ht.map
  constructor
  · intro name''
    by_cases hname : name'' = name'
    · subst hname
      have hnew : (⟨t.tick, p⟩ : PeerEntry) ∉ t.lists name'' := by simp [ht.mem_iff]
      simpa [Server.pushBack, List.nodup_append] using
        ⟨ht.nodup name'', fun a ha heq => hnew (heq ▸ ha)⟩
    · simpa [Server.pushBack, Function.update_of_ne hname] using ht.nodup name''
  · intro name'' y hy
    rcases (hlists name'' y).mp hy with ⟨hy, hne⟩ | ⟨rfl, rfl⟩
    · rw [hother _ hne]
      exact h.member_state name'' y hy
    · exact hstate
  · intro name'' y hy
    rcases (hlists name'' y).mp hy with ⟨hy, hne⟩ | ⟨rfl, rfl⟩
    · rw [hother _ hne]
      exact h.member_entry name'' y hy
    · exact hentry'
  · intro name'' y hy
    rw [hmap]
    rcases (hlists name'' y).mp hy with ⟨hy, hne⟩ | ⟨rfl, rfl⟩
    · rw [hother _ hne]
      exact h.member_mapped name'' y hy
    · rw [haddress]
      exact hpeer ▸ h.member_mapped name x hmem
  · intro q name'' hq
    by_cases hqp : q = p
    · subst hqp
      rw [hstate] at hq
      obtain rfl := state_injective hq
      exact ⟨⟨t.tick, q⟩, (hlists _ _).mpr (.inr ⟨rfl, rfl⟩), rfl⟩
    · rw [hother _ hqp] at hq
      obtain ⟨y, hy, rfl⟩ := h.listed q name'' hq
      exact ⟨y, (hlists _ _).mpr (.inl ⟨hy, hqp⟩), rfl⟩
  · intro a q hq
    rw [hmap] at hq
    obtain ⟨hold, name'', hstate'⟩ := h.mapped a q hq
    by_cases hqp : q = p
    · subst hqp
      exact ⟨haddress.trans hold, name', hstate⟩
    · rw [hother _ hqp]
      exact ⟨hold, name'', hstate'⟩
  · intro name'' y hy
    have htick : (t.pushBack name' p).tick = s.tick := ht.tick
    rw [htick]
    rcases (hlists name'' y).mp hy with ⟨hy, -⟩ | ⟨-, rfl⟩
    · exact h.named name'' y hy
    · exact hpeer ▸ h.named name x hmem

theorem releasePeer_peers (t : Server) (p q : PeerId) :
    (t.releasePeer p).peers q =
      if q = p then
        Peer.cleanup { t.peers p with senders := [], receivers := [] }
      else t.peers q := by
  unfold releasePeer
  simp only [cancelSendersAndReceivers]
  by_cases hq : q = p
  · subst hq
    cases (t.peers q).address <;> simp [Server.modifyPeer]
  · simp only [if_neg hq, Function.update_self]
    cases (t.peers p).address <;> simp [Server.modifyPeer, Function.update_of_ne hq]

theorem releasePeer_lists (t : Server) (p : PeerId) : (t.releasePeer p).lists = t.lists := by
  unfold releasePeer
  simp only [cancelSendersAndReceivers, Function.update_self]
  cases (t.peers p).address <;> rfl

theorem releasePeer_tick (t : Server) (p : PeerId) : (t.releasePeer p).tick = t.tick := by
  unfold releasePeer
  simp only [cancelSendersAndReceivers, Function.update_self]
  cases (t.peers p).address <;> rfl

theorem releasePeer_senders (t : Server) (p : PeerId) (id : SenderId) :
    (t.releasePeer p).senders id =
      if id ∈ (t.peers p).senders then
        (t.senders id).map fun sender => { sender with peer := none, canceled := true }
      else t.senders id := by
  unfold releasePeer
  simp only [cancelSendersAndReceivers, Function.update_self]
  cases (t.peers p).address <;> rfl

theorem releasePeer_map {t : Server} {p : PeerId} {a : Address}
    (h : (t.peers p).address = some a) :
    (t.releasePeer p).peerAddressMap = Function.update t.peerAddressMap a none := by
  unfold releasePeer
  simp only [cancelSendersAndReceivers, Function.update_self, h]
  rfl

/-- A peer between two lists is released. -/
theorem Table.releasePeer (h : Table s) {p : PeerId} {name : PeerListName}
    (hp : (s.peers p).state = name.state) {t : Server} (ht : Unlisted s p t) :
    Table (t.releasePeer p) := by
  obtain ⟨x, -, hmem, rfl⟩ := h.entry_of_state hp
  obtain ⟨a, haddress, hmapped⟩ := h.member_mapped name x hmem
  have hmap : (t.releasePeer x.peer).peerAddressMap = Function.update s.peerAddressMap a none := by
    rw [releasePeer_map (ht.address.trans haddress), ht.map]
  have hlists := releasePeer_lists t x.peer
  have hother : ∀ q, q ≠ x.peer → (t.releasePeer x.peer).peers q = s.peers q := by
    intro q hq
    rw [releasePeer_peers, if_neg hq, ht.peers q hq]
  have hself : ((t.releasePeer x.peer).peers x.peer).state = .disconnected := by
    rw [releasePeer_peers, if_pos rfl]
    rfl
  constructor
  · rw [hlists]
    exact ht.nodup
  · intro name' y hy
    rw [hlists, ht.mem_iff] at hy
    rw [hother _ hy.2]
    exact h.member_state name' y hy.1
  · intro name' y hy
    rw [hlists, ht.mem_iff] at hy
    rw [hother _ hy.2]
    exact h.member_entry name' y hy.1
  · intro name' y hy
    rw [hlists, ht.mem_iff] at hy
    obtain ⟨b, hb, hby⟩ := h.member_mapped name' y hy.1
    have hba : b ≠ a := by
      rintro rfl
      exact hy.2 (Option.some.inj (hby.symm.trans hmapped))
    refine ⟨b, ?_, ?_⟩
    · rw [hother _ hy.2]
      exact hb
    · rw [hmap, Function.update_of_ne hba]
      exact hby
  · intro q name' hq
    by_cases hqp : q = x.peer
    · subst hqp
      rw [hself] at hq
      exact absurd hq.symm (state_ne_disconnected name')
    · rw [hother _ hqp] at hq
      obtain ⟨y, hy, rfl⟩ := h.listed q name' hq
      refine ⟨y, ?_, rfl⟩
      rw [hlists, ht.mem_iff]
      exact ⟨hy, hqp⟩
  · intro b q hq
    rw [hmap] at hq
    by_cases hba : b = a
    · subst hba
      simp at hq
    · rw [Function.update_of_ne hba] at hq
      obtain ⟨hold, name', hstate⟩ := h.mapped b q hq
      have hqp : q ≠ x.peer := by
        rintro rfl
        exact hba (Option.some.inj (hold.symm.trans haddress))
      rw [hother _ hqp]
      exact ⟨hold, name', hstate⟩
  · intro name' y hy
    rw [hlists, ht.mem_iff] at hy
    rw [releasePeer_tick, ht.tick]
    exact h.named name' y hy.1

/-- The name of a new peer is not in any list. -/
def Unnamed (s : Server) (p : PeerId) : Prop := ∀ name, ∀ x ∈ s.lists name, x.peer ≠ p

theorem Table.state_of_unnamed (h : Table s) {p : PeerId} (hp : Unnamed s p)
    (name : PeerListName) : (s.peers p).state ≠ name.state := by
  intro hstate
  obtain ⟨x, hx, rfl⟩ := h.listed p name hstate
  exact hp name x hx rfl

/-- A new peer in the list of requesting peers. -/
theorem Table.acquirePeer (h : Table s) (env : Env) {a : Address}
    (ha : s.peerAddressMap a = none) (hnew : Unnamed s s.tick) :
    Table ((s.acquirePeer env a).pushBack .requesting s.tick) := by
  set t := (s.acquirePeer env a).pushBack .requesting s.tick with ht
  have hother : ∀ q, q ≠ s.tick → t.peers q = s.peers q := by
    intro q hq
    simp [ht, Server.pushBack, Server.acquirePeer, Function.update_of_ne hq]
  have hstate : (t.peers s.tick).state = .request := by
    simp [ht, Server.pushBack, PeerListName.state]
  have hentry : (t.peers s.tick).entry = some ⟨s.tick, s.tick⟩ := by
    simp [ht, Server.pushBack, Server.acquirePeer]
  have haddress : (t.peers s.tick).address = some a := by
    simp [ht, Server.pushBack, Server.acquirePeer]
  have hmap : t.peerAddressMap = Function.update s.peerAddressMap a (some s.tick) := rfl
  have hlists : ∀ name y, y ∈ t.lists name ↔
      y ∈ s.lists name ∨ (name = .requesting ∧ y = ⟨s.tick, s.tick⟩) := by
    intro name y
    by_cases hname : name = .requesting
    · subst hname
      simp [ht, Server.pushBack, Server.acquirePeer]
    · simp [ht, Server.pushBack, Server.acquirePeer, hname]
  constructor
  · intro name
    by_cases hname : name = .requesting
    · subst hname
      simpa [ht, Server.pushBack, Server.acquirePeer, List.nodup_append] using
        ⟨h.nodup .requesting, fun y hy heq => hnew _ y hy (heq ▸ rfl)⟩
    · simpa [ht, Server.pushBack, Server.acquirePeer, Function.update_of_ne hname] using
        h.nodup name
  · intro name y hy
    rcases (hlists name y).mp hy with hy | ⟨rfl, rfl⟩
    · rw [hother _ (hnew name y hy)]
      exact h.member_state name y hy
    · exact hstate
  · intro name y hy
    rcases (hlists name y).mp hy with hy | ⟨rfl, rfl⟩
    · rw [hother _ (hnew name y hy)]
      exact h.member_entry name y hy
    · exact hentry
  · intro name y hy
    rcases (hlists name y).mp hy with hy | ⟨rfl, rfl⟩
    · obtain ⟨b, hb, hby⟩ := h.member_mapped name y hy
      have hba : b ≠ a := by
        rintro rfl
        rw [ha] at hby
        exact absurd hby (by simp)
      refine ⟨b, by rw [hother _ (hnew name y hy)]; exact hb, ?_⟩
      rw [hmap, Function.update_of_ne hba]
      exact hby
    · exact ⟨a, haddress, by rw [hmap, Function.update_self]⟩
  · intro q name hq
    by_cases hqp : q = s.tick
    · subst hqp
      rw [hstate] at hq
      obtain rfl : PeerListName.requesting = name := state_injective hq
      exact ⟨⟨s.tick, s.tick⟩, (hlists _ _).mpr (.inr ⟨rfl, rfl⟩), rfl⟩
    · rw [hother _ hqp] at hq
      obtain ⟨y, hy, rfl⟩ := h.listed q name hq
      exact ⟨y, (hlists _ _).mpr (.inl hy), rfl⟩
  · intro b q hq
    rw [hmap] at hq
    by_cases hba : b = a
    · subst hba
      rw [Function.update_self] at hq
      obtain rfl := Option.some.inj hq
      exact ⟨haddress, .requesting, hstate⟩
    · rw [Function.update_of_ne hba] at hq
      obtain ⟨hold, name, hname⟩ := h.mapped b q hq
      have hqp : q ≠ s.tick := by
        rintro rfl
        exact h.state_of_unnamed hnew name hname
      rw [hother _ hqp]
      exact ⟨hold, name, hname⟩
  · intro name y hy
    have htick : t.tick = s.tick := rfl
    rw [htick]
    rcases (hlists name y).mp hy with hy | ⟨-, rfl⟩
    · exact h.named name y hy
    · exact le_rfl

theorem Table.discardPeer (h : Table s) (env : Env) {a : Address}
    (ha : s.peerAddressMap a = none) (hnew : Unnamed s s.tick) :
    Table ((s.acquirePeer env a).releasePeer s.tick) := by
  have haddress : ((s.acquirePeer env a).peers s.tick).address = some a := by
    simp [Server.acquirePeer]
  have hmap : ((s.acquirePeer env a).releasePeer s.tick).peerAddressMap = s.peerAddressMap := by
    rw [releasePeer_map haddress]
    simp [Server.acquirePeer, ← ha]
  have hlists : ((s.acquirePeer env a).releasePeer s.tick).lists = s.lists :=
    releasePeer_lists _ _
  have hother : ∀ q, q ≠ s.tick →
      ((s.acquirePeer env a).releasePeer s.tick).peers q = s.peers q := by
    intro q hq
    rw [releasePeer_peers, if_neg hq]
    simp [Server.acquirePeer, Function.update_of_ne hq]
  have hself : (((s.acquirePeer env a).releasePeer s.tick).peers s.tick).state =
      .disconnected := by
    rw [releasePeer_peers, if_pos rfl]
    rfl
  constructor
  · rw [hlists]
    exact h.nodup
  · intro name y hy
    rw [hlists] at hy
    rw [hother _ (hnew name y hy)]
    exact h.member_state name y hy
  · intro name y hy
    rw [hlists] at hy
    rw [hother _ (hnew name y hy)]
    exact h.member_entry name y hy
  · intro name y hy
    rw [hlists] at hy
    rw [hother _ (hnew name y hy), hmap]
    exact h.member_mapped name y hy
  · intro q name hq
    rw [hlists]
    by_cases hqp : q = s.tick
    · subst hqp
      rw [hself] at hq
      exact absurd hq.symm (state_ne_disconnected name)
    · rw [hother _ hqp] at hq
      exact h.listed q name hq
  · intro b q hq
    rw [hmap] at hq
    obtain ⟨hold, name, hstate⟩ := h.mapped b q hq
    have hqp : q ≠ s.tick := by
      rintro rfl
      exact h.state_of_unnamed hnew name hstate
    rw [hother _ hqp]
    exact ⟨hold, name, hstate⟩
  · intro name y hy
    rw [hlists] at hy
    rw [releasePeer_tick]
    exact h.named name y hy

end Moves

section Stop

/-- The body of the loops of `pomelo_protocol_server_stop`. -/
abbrev cleanupEntry (s : Server) (entry : PeerEntry) : Server :=
  (s.cancelSendersAndReceivers entry.peer).modifyPeer entry.peer Peer.cleanup

theorem foldl_cleanup_peers (entries : List PeerEntry) (s : Server) (q : PeerId) :
    (∃ peer : Peer, (entries.foldl cleanupEntry s).peers q = peer.cleanup) ∨
      (entries.foldl cleanupEntry s).peers q = s.peers q ∧ ∀ x ∈ entries, x.peer ≠ q := by
  induction entries generalizing s with
  | nil => simp
  | cons x entries ih =>
      rw [List.foldl_cons]
      rcases ih (s.cleanupEntry x) with hq | ⟨hq, hne⟩
      · exact .inl hq
      · rw [hq]
        by_cases hx : x.peer = q
        · subst hx
          left
          exact ⟨(s.cancelSendersAndReceivers x.peer).peers x.peer, by simp [Server.modifyPeer]⟩
        · right
          have hqx : q ≠ x.peer := fun h => hx h.symm
          refine ⟨?_, ?_⟩
          · simp [Server.modifyPeer, cancelSendersAndReceivers, Function.update_of_ne hqx]
          · intro y hy
            rcases List.mem_cons.mp hy with rfl | hy
            · exact hx
            · exact hne y hy

theorem foldl_cleanup_lists (entries : List PeerEntry) (s : Server) :
    (entries.foldl cleanupEntry s).lists = s.lists := by
  induction entries generalizing s with
  | nil => rfl
  | cons x entries ih => exact ih _

theorem releaseList_lists (s : Server) (name : PeerListName) :
    (s.releaseList name).lists = Function.update s.lists name [] := by
  have h := foldl_cleanup_lists (s.lists name) s
  simp only [releaseList]
  rw [h]

theorem releaseList_peers (s : Server) (name : PeerListName) (q : PeerId) :
    (∃ peer : Peer, (s.releaseList name).peers q = peer.cleanup) ∨
      (s.releaseList name).peers q = s.peers q ∧ ∀ x ∈ s.lists name, x.peer ≠ q :=
  foldl_cleanup_peers _ _ _

theorem foldl_releaseList (names : List PeerListName) (s : Server) :
    (∀ name, (names.foldl releaseList s).lists name =
      if name ∈ names then [] else s.lists name) ∧
    ∀ q, (∃ peer : Peer, (names.foldl releaseList s).peers q = peer.cleanup) ∨
      (names.foldl releaseList s).peers q = s.peers q ∧
        ∀ name ∈ names, ∀ x ∈ s.lists name, x.peer ≠ q := by
  induction names generalizing s with
  | nil => simp
  | cons name names ih =>
      obtain ⟨hlists, hpeers⟩ := ih (s.releaseList name)
      rw [releaseList_lists] at hlists hpeers
      refine ⟨?_, ?_⟩
      · intro name'
        rw [List.foldl_cons, hlists]
        by_cases hname : name' = name
        · subst hname
          simp
        · simp [hname]
      · intro q
        rw [List.foldl_cons]
        rcases hpeers q with hq | ⟨hq, hrest⟩
        · exact .inl hq
        · rw [hq]
          rcases releaseList_peers s name q with hq' | ⟨hq', hfirst⟩
          · exact .inl hq'
          · right
            refine ⟨hq', ?_⟩
            intro name' hname' x hx
            by_cases hname : name' = name
            · subst hname
              exact hfirst x hx
            · refine hrest name' ((List.mem_cons.mp hname').resolve_left hname) x ?_
              rwa [Function.update_of_ne hname]

theorem stopDeferred_lists (s : Server) (name : PeerListName) : s.stopDeferred.lists name = [] := by
  have hmem : name ∈
      ([.requesting, .challenging, .denied, .connected, .disconnecting] : List PeerListName) := by
    cases name <;> simp
  exact ((foldl_releaseList _ _).1 name).trans (if_pos hmem)

theorem stopDeferred_peers (s : Server) (q : PeerId) :
    (∃ peer : Peer, s.stopDeferred.peers q = peer.cleanup) ∨
      s.stopDeferred.peers q = s.peers q ∧ ∀ name, ∀ x ∈ s.lists name, x.peer ≠ q := by
  rcases (foldl_releaseList [.requesting, .challenging, .denied, .connected, .disconnecting]
    { s with
      state := .stopped
      anonymousSequenceNumber := 0
      challengeSequenceNumber := 0
      privateKey := 0
      challengeKey := 0 }).2 q with hq | ⟨hq, hout⟩
  · exact .inl hq
  · exact .inr ⟨hq, fun name => hout name (by cases name <;> simp)⟩

theorem Table.stopDeferred {s : Server} (h : Table s) : Table s.stopDeferred := by
  have hempty := stopDeferred_lists s
  have hnone : ∀ q (name : PeerListName), (s.stopDeferred.peers q).state ≠ name.state := by
    intro q name hq
    rcases stopDeferred_peers s q with ⟨peer, hclean⟩ | ⟨hsame, hout⟩
    · rw [hclean] at hq
      exact state_ne_disconnected name hq.symm
    · rw [hsame] at hq
      obtain ⟨x, hx, hxq⟩ := h.listed q name hq
      exact hout name x hx hxq
  constructor
  · intro name
    rw [hempty]
    exact List.nodup_nil
  · intro name x hx
    rw [hempty] at hx
    exact absurd hx (by simp)
  · intro name x hx
    rw [hempty] at hx
    exact absurd hx (by simp)
  · intro name x hx
    rw [hempty] at hx
    exact absurd hx (by simp)
  · intro q name hq
    exact absurd hq (hnone q name)
  · intro a q hq
    exact absurd hq (by simp [Server.stopDeferred])
  · intro name x hx
    rw [hempty] at hx
    exact absurd hx (by simp)

end Stop

theorem table_start (o : ServerOptions) : Table (start o) := by
  constructor
  · intro name
    exact List.nodup_nil
  · intro name x hx
    exact absurd hx (by simp [start])
  · intro name x hx
    exact absurd hx (by simp [start])
  · intro name x hx
    exact absurd hx (by simp [start])
  · intro p name hp
    exact absurd hp.symm (state_ne_disconnected name)
  · intro a p hp
    exact absurd hp (by simp [start])
  · intro name x hx
    exact absurd hx (by simp [start])

end Server

end Protocol

end PomeloUdp
