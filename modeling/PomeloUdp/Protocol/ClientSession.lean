import PomeloUdp.Protocol.ClientTraffic

/-!
# The session of a client

What the application and the servers see of a client is one session: the client asks for a
connection, is connected once, exchanges payloads, and parts. `ClientSession.next` has the packets
and the callbacks that belong to each of its stages, and `session_run` says that the effects of
every run are a trace of it. Timers of an earlier stage may still have a task that was submitted
before they were stopped, so a late request or a late keep-alive stands in the later stages too.
-/

namespace PomeloUdp

namespace Protocol

open Machine

/-- How far the session of a client is. -/
inductive ClientSession where
  | connecting
  /-- The result is reported, the connection is not yet. -/
  | admitted
  | established
  /-- The session is over. So many Disconnect packets were sent since, and so many times the
  application was told. -/
  | ended (disconnects tellings : ℕ)
  deriving DecidableEq

namespace ClientSession

/-- The stage after an effect, when the effect belongs to the stage. -/
def next (s : ClientSession) (effect : ClientEffect) : Option ClientSession :=
  match s with
  | .connecting =>
      match effect with
      | .emitted datagram =>
          if datagram.header.type = .request ∨ datagram.header.type = .response then
            some .connecting
          else none
      | .connectResult result => if result = .success then some .admitted else some .connecting
      | .disconnected => some (.ended 0 1)
      | _ => none
  | .admitted =>
      match effect with
      | .connected _ => some .established
      | _ => none
  | .established =>
      match effect with
      | .emitted datagram =>
          match datagram.header.type with
          | .request | .response | .keepAlive | .payload => some .established
          | _ => none
      | .connectResult result => if result = .success then none else some .established
      | .received _ _ => some .established
      | .disconnected => some (.ended 0 1)
      | .connected _ => none
  | .ended n t =>
      match effect with
      | .emitted datagram =>
          match datagram.header.type with
          | .request | .response | .keepAlive => some (.ended n t)
          | .disconnect => if n < 10 then some (.ended (n + 1) t) else none
          | _ => none
      | .connectResult result => if result = .success then none else some (.ended n t)
      | .received _ _ => some (.ended n t)
      | .disconnected => if t < 2 then some (.ended n (t + 1)) else none
      | .connected _ => none

/-- The stage after a list of effects. -/
def trace (s : ClientSession) (effects : List ClientEffect) : Option ClientSession :=
  effects.foldlM next s

theorem trace_append (s : ClientSession) (effects effects' : List ClientEffect) :
    s.trace (effects ++ effects') = (s.trace effects).bind fun t => t.trace effects' :=
  List.foldlM_append ..

@[simp] theorem trace_nil (s : ClientSession) : s.trace [] = some s := rfl

@[simp] theorem trace_cons (s : ClientSession) (effect : ClientEffect)
    (effects : List ClientEffect) :
    s.trace (effect :: effects) = (s.next effect).bind fun t => t.trace effects := rfl

/-- An effect that belongs to every stage and leaves the client there. -/
def Neutral (effect : ClientEffect) : Prop := ∀ s, s ≠ .admitted → next s effect = some s

theorem neutral_emitted {datagram : Datagram}
    (h : datagram.header.type = .request ∨ datagram.header.type = .response) :
    Neutral (.emitted datagram) := by
  intro s hs
  cases s with
  | connecting => simp [next, h]
  | admitted => exact absurd rfl hs
  | established => rcases h with h | h <;> simp [next, h]
  | ended n t => rcases h with h | h <;> simp [next, h]

theorem neutral_connectResult {result : ConnectResult} (h : result ≠ .success) :
    Neutral (.connectResult result) := by
  intro s hs
  cases s with
  | admitted => exact absurd rfl hs
  | _ => simp [next, h]

theorem trace_neutral {s : ClientSession} (hs : s ≠ .admitted) {effects : List ClientEffect}
    (h : ∀ effect ∈ effects, Neutral effect) : s.trace effects = some s := by
  induction effects with
  | nil => rfl
  | cons effect effects ih =>
      rw [trace_cons, h effect List.mem_cons_self s hs]
      exact ih fun other hother => h other (List.mem_cons_of_mem _ hother)

section Traces

variable {s s' : ClientSession} {effect : ClientEffect} {effects : List ClientEffect}

/-- A packet of the type is sent. -/
def sends (type : PacketType) : ClientEffect → Bool
  | .emitted datagram => datagram.header.type = type
  | _ => false

/-- The Disconnect packets of a session. -/
def disconnects : ClientSession → ℕ
  | .ended n _ => n
  | _ => 0

/-- How many times the application was told that the session is over. -/
def tellings : ClientSession → ℕ
  | .ended _ t => t
  | _ => 0

/-- The connection was reported, or it never will be. -/
def Late : ClientSession → Prop
  | .established | .ended _ _ => True
  | _ => False

/-- What the effects of a session have in common. -/
structure Proper (effects : List ClientEffect) : Prop where
  disconnects : effects.countP (sends .disconnect) ≤ 10
  tellings : effects.count .disconnected ≤ 2
  connected : ∀ earlier later id, effects = earlier ++ .connected id :: later →
    ∀ id', .connected id' ∉ later
  payloads : ∀ earlier later effect, effects = earlier ++ effect :: later →
    sends .payload effect = true → (∃ id, .connected id ∈ earlier) ∧ .disconnected ∉ earlier

theorem disconnects_next (h : next s effect = some s') :
    s'.disconnects = s.disconnects + (if sends .disconnect effect then 1 else 0) ∧
      (s.disconnects ≤ 10 → s'.disconnects ≤ 10) := by
  unfold ClientSession.next at h
  split at h <;> grind [ClientSession.disconnects, sends]

theorem tellings_next (h : next s effect = some s') :
    s'.tellings = s.tellings + (if effect == .disconnected then 1 else 0) ∧
      (s.tellings ≤ 2 → s'.tellings ≤ 2) := by
  unfold ClientSession.next at h
  split at h <;> grind [ClientSession.tellings]

theorem Late.next (hlate : s.Late) (h : ClientSession.next s effect = some s') :
    s'.Late ∧ ∀ id, effect ≠ .connected id := by
  unfold ClientSession.next at h
  split at h <;> grind [ClientSession.Late]

theorem established_of_sends (h : next s effect = some s')
    (hpayload : sends .payload effect = true) : s = .established := by
  unfold ClientSession.next at h
  split at h <;> grind [sends]

theorem connected_of_next (h : next s effect = some .established) (hs : s ≠ .established) :
    ∃ id, effect = .connected id := by
  unfold ClientSession.next at h
  split at h <;> grind

theorem trace_counts {m : ClientSession → ℕ} {p : ClientEffect → Bool} {bound : ℕ}
    (hm : ∀ {s s' effect}, next s effect = some s' →
      m s' = m s + (if p effect then 1 else 0) ∧ (m s ≤ bound → m s' ≤ bound))
    (h : s.trace effects = some s') :
    m s' = m s + effects.countP p ∧ (m s ≤ bound → m s' ≤ bound) := by
  induction effects generalizing s with
  | nil =>
      cases h
      exact ⟨rfl, id⟩
  | cons effect effects ih =>
      obtain ⟨t, hnext, htrace⟩ := Option.bind_eq_some_iff.mp h
      obtain ⟨hcount, hle⟩ := hm hnext
      obtain ⟨hcounts, hles⟩ := ih htrace
      refine ⟨?_, fun h => hles (hle h)⟩
      rw [hcounts, hcount, List.countP_cons]
      omega

theorem Late.trace (hlate : s.Late) (h : s.trace effects = some s') (id : Int64) :
    .connected id ∉ effects := by
  induction effects generalizing s with
  | nil => exact List.not_mem_nil
  | cons effect effects ih =>
      obtain ⟨t, hnext, htrace⟩ := Option.bind_eq_some_iff.mp h
      obtain ⟨hlate', hne⟩ := hlate.next hnext
      intro hmem
      rcases List.mem_cons.mp hmem with heq | hmem
      · exact hne id heq.symm
      · exact ih hlate' htrace hmem

theorem connected_of_trace (h : s.trace effects = some .established) (hs : s ≠ .established) :
    ∃ id, .connected id ∈ effects := by
  induction effects generalizing s with
  | nil =>
      cases h
      exact absurd rfl hs
  | cons effect effects ih =>
      obtain ⟨t, hnext, htrace⟩ := Option.bind_eq_some_iff.mp h
      by_cases ht : t = .established
      · subst ht
        obtain ⟨id, rfl⟩ := connected_of_next hnext hs
        exact ⟨id, List.mem_cons_self⟩
      · obtain ⟨id, hmem⟩ := ih htrace ht
        exact ⟨id, List.mem_cons_of_mem _ hmem⟩

theorem proper_of_trace (h : connecting.trace effects = some s) : Proper effects where
  disconnects := by
    obtain ⟨hcount, hle⟩ := trace_counts disconnects_next h
    have hbound := hle (Nat.zero_le _)
    have hzero : ClientSession.disconnects .connecting = 0 := rfl
    omega
  tellings := by
    obtain ⟨hcount, hle⟩ := trace_counts tellings_next h
    have hbound := hle (Nat.zero_le _)
    have hzero : ClientSession.tellings .connecting = 0 := rfl
    rw [List.count]
    omega
  connected earlier later id heffects id' := by
    subst heffects
    rw [trace_append] at h
    obtain ⟨t, -, hrest⟩ := Option.bind_eq_some_iff.mp h
    obtain ⟨t', hnext, hlater⟩ := Option.bind_eq_some_iff.mp hrest
    refine Late.trace ?_ hlater id'
    cases t with
    | admitted =>
        cases hnext
        trivial
    | _ => cases hnext
  payloads earlier later effect heffects hpayload := by
    subst heffects
    rw [trace_append] at h
    obtain ⟨t, hearlier, hrest⟩ := Option.bind_eq_some_iff.mp h
    obtain ⟨t', hnext, -⟩ := Option.bind_eq_some_iff.mp hrest
    obtain rfl := established_of_sends hnext hpayload
    refine ⟨connected_of_trace hearlier (by decide), fun hmem => ?_⟩
    have hcount := (trace_counts tellings_next hearlier).1
    have hpos : 0 < earlier.count .disconnected := List.count_pos_iff.mpr hmem
    rw [List.count] at hpos
    simp only [ClientSession.tellings] at hcount
    omega

end Traces

end ClientSession

/-- The emitter will still call back. -/
def Emitter.Active (e : Emitter) : Prop := e.running = true ∨ e.triggerTask = true

/-- The peer of a client waits for an answer to its request or its response. -/
def PeerState.Entering (state : PeerState) : Prop := state = .request ∨ state = .response

instance : DecidablePred PeerState.Entering :=
  fun state => inferInstanceAs (Decidable (state = .request ∨ state = .response))

/-- The peer of a client is neither connected nor on the way there. -/
def PeerState.Settled (state : PeerState) : Prop := ¬ state.Entering ∧ state ≠ .connected

instance : DecidablePred PeerState.Settled :=
  fun state => inferInstanceAs (Decidable (¬ state.Entering ∧ state ≠ .connected))

namespace Client

variable {c c' c'' : Client} {s : ClientSession} {env : ClientEnv}

/-- The state of a client whose session is not established. -/
structure Unconnected (c : Client) : Prop where
  keepAlive : ¬ (c.emitters .keepAlive).Active
  disconnect : ¬ (c.emitters .disconnect).Active
  receivers : ∀ id r, c.receivers id = some r → r.datagram.header.type ≠ .payload
  peer : c.state = .running → ∀ peer, c.peer = some peer → peer.state ≠ .connected

/-- The state of a client whose session is established. -/
structure InSession (c : Client) : Prop where
  disconnect : ¬ (c.emitters .disconnect).Active
  peer : ∀ peer, c.peer = some peer → ¬ peer.state.Entering

/-- The state of a client whose session is over. -/
structure Parted (disconnects tellings : ℕ) (c : Client) : Prop where
  peer : ∀ peer, c.peer = some peer → peer.state.Settled
  counted : disconnects ≤ (c.emitters .disconnect).triggerCounter
  limited : disconnects ≤ 10
  disconnect : (c.emitters .disconnect).Active → (c.emitters .disconnect).triggerCounter < 10
  told : tellings = 1 ∨ tellings = 2 ∧ ¬ (c.emitters .keepAlive).Active

/-- The client is in the stage. -/
def Fits (c : Client) : ClientSession → Prop
  | .connecting => Unconnected c
  | .admitted => False
  | .established => InSession c
  | .ended n t => Parted n t c

/-- From `c` to `c'` no timer was started, no datagram passed validation, and the peer did not get
closer to a connection. The effects belong to every stage. -/
structure Idles (c c' : Client) : Prop where
  keepAlive : (c'.emitters .keepAlive).Active → (c.emitters .keepAlive).Active
  disconnect : (c'.emitters .disconnect).Active → (c.emitters .disconnect).Active
  counter : (c'.emitters .disconnect).triggerCounter = (c.emitters .disconnect).triggerCounter
  receivers : ∀ id r', c'.receivers id = some r' →
    ∃ r, c.receivers id = some r ∧ r'.datagram = r.datagram
  peer : ∀ peer', c'.peer = some peer' →
    peer'.state.Settled ∨ ∃ peer, c.peer = some peer ∧ peer'.state = peer.state
  running : c'.state = .running → c.state = .running
  log : ∃ effects, c'.log = c.log ++ effects ∧ ∀ effect ∈ effects, ClientSession.Neutral effect

theorem Fits.idles (h : Fits c s) (hidles : Idles c c') : Fits c' s := by
  cases s with
  | connecting =>
      refine ⟨fun hactive => h.keepAlive (hidles.keepAlive hactive),
        fun hactive => h.disconnect (hidles.disconnect hactive), fun id r' hr => ?_,
        fun hrunning peer' hpeer => ?_⟩
      · obtain ⟨r, hold, hdatagram⟩ := hidles.receivers id r' hr
        rw [hdatagram]
        exact h.receivers id r hold
      · rcases hidles.peer peer' hpeer with hsettled | ⟨peer, hold, hstate⟩
        · exact hsettled.2
        · rw [hstate]
          exact h.peer (hidles.running hrunning) peer hold
  | admitted => exact h
  | established =>
      refine ⟨fun hactive => h.disconnect (hidles.disconnect hactive), fun peer' hpeer => ?_⟩
      rcases hidles.peer peer' hpeer with hsettled | ⟨peer, hold, hstate⟩
      · exact hsettled.1
      · rw [hstate]
        exact h.peer peer hold
  | ended n t =>
      refine ⟨fun peer' hpeer => ?_, ?_, h.limited, fun hactive => ?_, ?_⟩
      · rcases hidles.peer peer' hpeer with hsettled | ⟨peer, hold, hstate⟩
        · exact hsettled
        · rw [hstate]
          exact h.peer peer hold
      · rw [hidles.counter]
        exact h.counted
      · rw [hidles.counter]
        exact h.disconnect (hidles.disconnect hactive)
      · rcases h.told with htold | ⟨htold, hsilent⟩
        · exact .inl htold
        · exact .inr ⟨htold, fun hactive => hsilent (hidles.keepAlive hactive)⟩

/-- The effects of the client lead to the stage it is in. -/
structure At (s : ClientSession) (c : Client) : Prop where
  log : ClientSession.connecting.trace c.log = some s
  fits : Fits c s

theorem At.ne_admitted (h : At s c) : s ≠ .admitted := by
  rintro rfl
  exact h.fits

theorem At.idles (h : At s c) (hidles : Idles c c') : At s c' where
  log := by
    obtain ⟨effects, hlog, hneutral⟩ := hidles.log
    rw [hlog, ClientSession.trace_append, h.log]
    exact ClientSession.trace_neutral h.ne_admitted hneutral
  fits := h.fits.idles hidles

theorem Fits.note (h : Fits c s) (effect : ClientEffect) : Fits (c.note effect) s := by
  cases s with
  | connecting => exact ⟨h.keepAlive, h.disconnect, h.receivers, h.peer⟩
  | admitted => exact h
  | established => exact ⟨h.disconnect, h.peer⟩
  | ended n t => exact ⟨h.peer, h.counted, h.limited, h.disconnect, h.told⟩

theorem At.note (h : At s c) {effect : ClientEffect} {s' : ClientSession}
    (hnext : s.next effect = some s') (hfits : Fits c s') : At s' (c.note effect) where
  log := by
    rw [Client.note, ClientSession.trace_append, h.log]
    simp [hnext]
  fits := hfits.note effect

section Operations

namespace Idles

theorem refl (c : Client) : Idles c c where
  keepAlive := id
  disconnect := id
  counter := rfl
  receivers := fun _ r hr => ⟨r, hr, rfl⟩
  peer := fun peer hpeer => .inr ⟨peer, hpeer, rfl⟩
  running := id
  log := ⟨[], (List.append_nil _).symm, by simp⟩

theorem trans (h : Idles c c') (h' : Idles c' c'') : Idles c c'' where
  keepAlive hactive := h.keepAlive (h'.keepAlive hactive)
  disconnect hactive := h.disconnect (h'.disconnect hactive)
  counter := h'.counter.trans h.counter
  receivers id r'' hr := by
    obtain ⟨r', hr', hdatagram'⟩ := h'.receivers id r'' hr
    obtain ⟨r, hr, hdatagram⟩ := h.receivers id r' hr'
    exact ⟨r, hr, hdatagram'.trans hdatagram⟩
  peer peer'' hpeer := by
    rcases h'.peer peer'' hpeer with hsettled | ⟨peer', hpeer', hstate'⟩
    · exact .inl hsettled
    · rcases h.peer peer' hpeer' with hsettled | ⟨peer, hpeer, hstate⟩
      · rw [hstate']
        exact .inl hsettled
      · exact .inr ⟨peer, hpeer, hstate'.trans hstate⟩
  running hrunning := h.running (h'.running hrunning)
  log := by
    obtain ⟨effects, hlog, hneutral⟩ := h.log
    obtain ⟨effects', hlog', hneutral'⟩ := h'.log
    refine ⟨effects ++ effects', by rw [hlog', hlog, List.append_assoc], fun effect heffect => ?_⟩
    exact (List.mem_append.mp heffect).elim (hneutral effect) (hneutral' effect)

theorem of_eq (hemitters : c'.emitters = c.emitters) (hreceivers : c'.receivers = c.receivers)
    (hpeer : c'.peer = c.peer) (hstate : c'.state = .running → c.state = .running)
    (hlog : c'.log = c.log) : Idles c c' where
  keepAlive := by rw [hemitters]; exact id
  disconnect := by rw [hemitters]; exact id
  counter := by rw [hemitters]
  receivers := fun id r hr => ⟨r, by rwa [← hreceivers], rfl⟩
  peer := fun peer h => .inr ⟨peer, by rwa [← hpeer], rfl⟩
  running := hstate
  log := ⟨[], by rw [hlog, List.append_nil], by simp⟩

theorem fault (h : Idles c c') : Idles c c'.fault := h.trans (.of_eq rfl rfl rfl id rfl)

theorem socketStop (h : Idles c c') : Idles c c'.socketStop := by
  unfold Client.socketStop
  split
  · exact h
  · exact h.trans (.of_eq rfl rfl rfl (fun hrunning => by cases hrunning) rfl)

theorem setSender (h : Idles c c') (id : SenderId) (sender : Option Sender) :
    Idles c (c'.setSender id sender) := h.trans (.of_eq rfl rfl rfl (fun hrunning => hrunning) rfl)

theorem note (h : Idles c c') {effect : ClientEffect} (heffect : ClientSession.Neutral effect) :
    Idles c (c'.note effect) := by
  refine h.trans { refl c' with log := ⟨[effect], rfl, fun other hother => ?_⟩ }
  rw [List.mem_singleton.mp hother]
  exact heffect

theorem take (h : Idles c c') (id : ReceiverId) : Idles c (c'.setReceiver id none) := by
  refine h.trans { refl c' with receivers := fun other r hr => ?_ }
  simp only [Client.setReceiver, Function.update_apply] at hr
  split at hr
  · cases hr
  · exact ⟨r, hr, rfl⟩

theorem modifyPeer (h : Idles c c') {f : Peer → Peer}
    (hf : ∀ peer, (f peer).state.Settled ∨ (f peer).state = peer.state) :
    Idles c (c'.modifyPeer f) := by
  refine h.trans { refl c' with peer := fun peer' hpeer => ?_ }
  obtain ⟨peer, hold, rfl⟩ := Option.map_eq_some_iff.mp hpeer
  exact (hf peer).imp id fun hstate => ⟨peer, hold, hstate⟩

theorem modifyEmitter (h : Idles c c') (name : EmitterName) {f : Emitter → Emitter}
    (hf : (f (c'.emitters name)).Active → (c'.emitters name).Active)
    (hcounter : name = .disconnect →
      (f (c'.emitters name)).triggerCounter = (c'.emitters name).triggerCounter) :
    Idles c (c'.modifyEmitter name f) := by
  refine h.trans { refl c' with keepAlive := ?_, disconnect := ?_, counter := ?_ }
  · simp only [Client.modifyEmitter, Function.update_apply]
    split
    next heq => rw [heq]; exact hf
    next => exact id
  · simp only [Client.modifyEmitter, Function.update_apply]
    split
    next heq => rw [heq]; exact hf
    next => exact id
  · simp only [Client.modifyEmitter, Function.update_apply]
    split
    next heq => rw [heq]; exact hcounter heq.symm
    next => rfl

theorem emitterStop (h : Idles c c') (name : EmitterName) : Idles c (c'.emitterStop name) := by
  refine h.modifyEmitter name (fun hactive => ?_) fun _ => rfl
  exact .inr (hactive.resolve_left (by simp))

theorem modifyEmitter_of_ne (h : Idles c c') (name : EmitterName) (hkeepAlive : name ≠ .keepAlive)
    (hdisconnect : name ≠ .disconnect) (f : Emitter → Emitter) :
    Idles c (c'.modifyEmitter name f) := by
  refine h.trans { refl c' with keepAlive := ?_, disconnect := ?_, counter := ?_ }
  · simp [Client.modifyEmitter, Function.update_of_ne hkeepAlive.symm]
  · simp [Client.modifyEmitter, Function.update_of_ne hdisconnect.symm]
  · simp [Client.modifyEmitter, Function.update_of_ne hdisconnect.symm]

theorem releasePeer (h : Idles c c') (peer : Peer) : Idles c (c'.releasePeer peer) := by
  refine h.trans { refl c' with
    peer := fun _ hpeer => by cases hpeer
    receivers := fun id r' hr => ?_ }
  simp only [Client.releasePeer] at hr
  split at hr
  · obtain ⟨r, hold, rfl⟩ := Option.map_eq_some_iff.mp hr
    exact ⟨r, hold, rfl⟩
  · exact ⟨r', hr, rfl⟩

theorem stop (h : Idles c c') : Idles c c'.stop := by
  unfold Client.stop
  split
  · exact h
  · exact ((((h.emitterStop _).emitterStop _).emitterStop _).emitterStop _).releasePeer _

theorem tryNextAddress (h : Idles c c') {result : ConnectResult} (hresult : result ≠ .success) :
    Idles c (match c'.nextAddress with
      | (c, none) => (c.note (.connectResult result)).socketStop
      | (c, some _) => c.retryAddress) := by
  have hnext : Idles c c'.nextAddress.1 := h.trans (.of_eq rfl rfl rfl id rfl)
  split
  next heq =>
    rw [heq] at hnext
    exact (hnext.note (ClientSession.neutral_connectResult hresult)).socketStop
  next heq =>
    rw [heq] at hnext
    exact hnext.stop.fault

theorem recvDenied (h : Idles c c') : Idles c (recvDenied c') :=
  (h.modifyPeer fun _ => .inl (by decide : PeerState.denied.Settled)).tryNextAddress (by decide)

theorem handleRequestTimeout (h : Idles c c') : Idles c (handleRequestTimeout c') := by
  have hstopped := h.emitterStop .request
  simp only [Client.handleRequestTimeout]
  split
  · exact hstopped.fault
  · refine (hstopped.modifyPeer fun peer => ?_).tryNextAddress (by simp)
    cases hstate : peer.state with
    | request => exact .inl (by decide : PeerState.requestTimedOut.Settled)
    | response => exact .inl (by decide : PeerState.responseTimedOut.Settled)
    | _ => exact .inr rfl

theorem senderComplete (h : Idles c c') (id : SenderId) : Idles c (senderComplete c' id) := by
  unfold Client.senderComplete
  split
  · exact h
  · dsimp only
    split
    · exact h.setSender id none
    · exact (h.setSender id none).modifyPeer fun _ => .inr rfl

theorem stopDeferred (h : Idles c c') : Idles c c'.stopDeferred := by
  unfold Client.stopDeferred
  refine stop (modifyPeer (h.trans ?_) fun _ => .inl (by decide : PeerState.disconnected.Settled))
  exact .of_eq rfl rfl rfl (fun hrunning => by cases hrunning) rfl

theorem dispatch_cases (env : ClientEnv) (c : Client) (datagram : Datagram) :
    dispatch env c datagram = c ∨ ∃ d, Idles c d ∧ d.log = c.log ∧ d.emitters = c.emitters ∧
      dispatch env c datagram = d.note (.emitted datagram) := by
  unfold Client.dispatch
  split
  · refine .inr ⟨_, ?_, ?_, ?_, rfl⟩
    · exact ((refl c).setSender _ _).modifyPeer fun _ => .inr rfl
    · rfl
    · rfl
  · exact .inl rfl

theorem sendRequest (h : Idles c c') : Idles c (sendRequest env c') := by
  unfold Client.sendRequest
  split
  · split
    · exact h.fault
    · rcases dispatch_cases env c' (.request 0 ⟨true, c'.connectToken.protocolId,
        c'.connectToken.expireTimestamp, c'.connectToken.connectTokenNonce,
        c'.connectToken.encrypted⟩) with heq | ⟨d, hidles, -, -, heq⟩
      · rw [heq]
        exact h
      · rw [heq]
        exact (h.trans hidles).note (ClientSession.neutral_emitted (.inl rfl))
  · exact h.socketStop

end Idles

end Operations

section Handlers

theorem At.connecting_of_entering (h : At s c) {peer : Peer} (hpeer : c.peer = some peer)
    (hentering : peer.state.Entering) : s = .connecting := by
  cases s with
  | connecting => rfl
  | admitted => exact absurd rfl h.ne_admitted
  | established => exact absurd hentering (h.fits.peer peer hpeer)
  | ended n t => exact absurd hentering (h.fits.peer peer hpeer).1

/-- The session of a connected client is not over. It may not be established when the client
stops. -/
theorem At.of_connected (h : At s c) {peer : Peer} (hpeer : c.peer = some peer)
    (hconnected : peer.state = .connected) : s = .connecting ∨ s = .established := by
  cases s with
  | connecting => exact .inl rfl
  | admitted => exact absurd rfl h.ne_admitted
  | established => exact .inr rfl
  | ended n t => exact absurd hconnected (h.fits.peer peer hpeer).2

theorem At.leave (h : At s c) (hs : s = .connecting ∨ s = .established)
    (hpeer : ∀ peer, c.peer = some peer → peer.state.Settled) :
    At (.ended 0 1) (c.note .disconnected) := by
  have hnext : s.next .disconnected = some (.ended 0 1) := by
    rcases hs with rfl | rfl
    · rfl
    · rfl
  have hdisconnect : ¬ (c.emitters .disconnect).Active := by
    rcases hs with rfl | rfl
    · exact h.fits.disconnect
    · exact h.fits.disconnect
  exact h.note hnext ⟨hpeer, Nat.zero_le _, by decide, fun hactive =>
    absurd hactive hdisconnect, .inl rfl⟩

theorem At.dispatch (h : At s c) {datagram : Datagram}
    (hnext : s.next (.emitted datagram) = some s) : At s (dispatch env c datagram) := by
  rcases Idles.dispatch_cases env c datagram with heq | ⟨d, hidles, -, -, heq⟩
  · rw [heq]
    exact h
  · rw [heq]
    exact (h.idles hidles).note hnext (h.idles hidles).fits

theorem At.sendOwn (h : At s c) (peer : Peer) (type : PacketType) (body : PacketBody)
    (hnext : ∀ number sealedBody,
      s.next (.emitted (.packet ⟨type, number⟩ sealedBody)) = some s) :
    At s (sendOwn env c peer type body) := by
  have hnumbered : At s (c.modifyPeer fun peer => peer.nextSequence.1) :=
    h.idles ((Idles.refl c).modifyPeer fun _ => .inr rfl)
  unfold Client.sendOwn
  dsimp only
  split
  · exact hnumbered.dispatch (hnext _ _)
  · exact hnumbered.idles (Idles.refl _).socketStop

theorem At.sendResponse (h : At s c) : At s (sendResponse env c) := by
  unfold Client.sendResponse
  split
  · exact h.idles (Idles.refl c).fault
  · exact h.sendOwn _ _ _ fun _ _ => ClientSession.neutral_emitted (.inr rfl) s h.ne_admitted

/-- The keep-alive goes out, or the server was silent for too long and the session ends. A client
whose session is over may find this once, in a task of the timer that it had stopped. -/
theorem At.sendKeepAlive (h : At s c) (hs : s = .established ∨ ∃ n, s = .ended n 1)
    (htask : (c.emitters .keepAlive).triggerTask = false) :
    ∃ s', At s' (sendKeepAlive env c) := by
  unfold Client.sendKeepAlive
  split
  · exact ⟨s, h.idles (Idles.refl c).fault⟩
  · split
    · have hlate : At s ((c.emitterStop .keepAlive).modifyPeer fun peer =>
          { peer with state := .timedOut }) :=
        h.idles (((Idles.refl c).emitterStop _).modifyPeer fun _ =>
          .inl (by decide : PeerState.timedOut.Settled))
      have hsettled : ∀ peer, ((c.emitterStop .keepAlive).modifyPeer fun peer =>
          { peer with state := .timedOut }).peer = some peer → peer.state.Settled := by
        intro peer hpeer
        obtain ⟨_, -, rfl⟩ := Option.map_eq_some_iff.mp hpeer
        exact (by decide : PeerState.timedOut.Settled)
      rcases hs with rfl | ⟨n, rfl⟩
      · exact ⟨_, (hlate.leave (.inr rfl) hsettled).idles (Idles.refl _).socketStop⟩
      · refine ⟨.ended n 2, At.idles (At.note hlate rfl ⟨hlate.fits.peer, hlate.fits.counted,
          hlate.fits.limited, hlate.fits.disconnect, .inr ⟨rfl, ?_⟩⟩) (Idles.refl _).socketStop⟩
        simp [Emitter.Active, Client.emitterStop, Client.modifyEmitter, Client.modifyPeer, htask]
    · refine ⟨s, h.sendOwn _ _ _ fun _ _ => ?_⟩
      rcases hs with rfl | ⟨n, rfl⟩
      · rfl
      · rfl

theorem At.onTriggered (h : At s c) (name : EmitterName) (hname : name ≠ .disconnect)
    (htask : (c.emitters name).triggerTask = true) :
    ∃ s', At s' (Client.onTriggered env (c.modifyEmitter name fun e =>
      { e with triggerTask := false }) name) := by
  have hcleared : At s (c.modifyEmitter name fun e => { e with triggerTask := false }) :=
    h.idles ((Idles.refl c).modifyEmitter name
      (fun hactive => .inl (hactive.resolve_right (by simp))) fun _ => rfl)
  have htriggered : ∃ s', At s' (trigger env (c.modifyEmitter name fun e =>
      { e with triggerTask := false }) name) := by
    cases name with
    | request => exact ⟨s, hcleared.idles (Idles.refl _).sendRequest⟩
    | response => exact ⟨s, hcleared.sendResponse⟩
    | keepAlive =>
        refine hcleared.sendKeepAlive ?_ (by simp [Client.modifyEmitter])
        cases s with
        | connecting => exact absurd (.inr htask) h.fits.keepAlive
        | admitted => exact absurd rfl h.ne_admitted
        | established => exact .inl rfl
        | ended n t =>
            rcases h.fits.told with rfl | ⟨-, hsilent⟩
            · exact .inr ⟨n, rfl⟩
            · exact absurd (.inr htask) hsilent
    | disconnect => exact absurd rfl hname
  obtain ⟨s', hat⟩ := htriggered
  have hlimit : name.limit = 0 := by
    cases name with
    | disconnect => exact absurd rfl hname
    | _ => rfl
  unfold Client.onTriggered
  dsimp only
  rw [hlimit, if_neg (by simp)]
  exact ⟨s', hat.idles ((Idles.refl _).modifyEmitter name (fun hactive => hactive)
    fun heq => absurd heq hname)⟩

theorem sendDisconnect_cases (env : ClientEnv) {n t : ℕ} (h : At (.ended n t) c) (hlt : n < 10) :
    ∃ m, m ≤ n + 1 ∧ ClientSession.connecting.trace (sendDisconnect env c).log = some (.ended m t) ∧
      (sendDisconnect env c).emitters = c.emitters ∧
      ∀ peer, (sendDisconnect env c).peer = some peer → peer.state.Settled := by
  unfold Client.sendDisconnect
  split
  · exact ⟨n, Nat.le_succ n, h.log, rfl, h.fits.peer⟩
  next peer _ =>
    have hnumbered : At (.ended n t) (c.modifyPeer fun peer => peer.nextSequence.1) :=
      h.idles ((Idles.refl c).modifyPeer fun _ => .inr rfl)
    unfold Client.sendOwn
    dsimp only
    split
    · rcases Idles.dispatch_cases env (c.modifyPeer fun peer => peer.nextSequence.1)
        (sealedPacket peer ⟨.disconnect, peer.sequenceNumber⟩ .disconnect) with
        heq | ⟨d, hidles, -, hemitters, heq⟩
      · rw [heq]
        exact ⟨n, Nat.le_succ n, hnumbered.log, rfl, hnumbered.fits.peer⟩
      · have hsent := hnumbered.idles hidles
        rw [heq]
        refine ⟨n + 1, Nat.le_refl _, ?_, hemitters, hsent.fits.peer⟩
        rw [Client.note, ClientSession.trace_append, hsent.log]
        simp [ClientSession.next, Client.sealedPacket, Datagram.header, hlt]
    · have hstopped := hnumbered.idles (Idles.refl _).socketStop
      refine ⟨n, Nat.le_succ n, hstopped.log, ?_, hstopped.fits.peer⟩
      unfold Client.socketStop
      split <;> rfl

theorem At.counted {m t : ℕ} {d : Client}
    (hlog : ClientSession.connecting.trace c.log = some (.ended m t))
    (hpeer : ∀ peer, c.peer = some peer → peer.state.Settled)
    (hle : m ≤ (c.emitters .disconnect).triggerCounter + 1)
    (hlt : (c.emitters .disconnect).triggerCounter < 10)
    (htold : t = 1 ∨ t = 2 ∧ ¬ (c.emitters .keepAlive).Active)
    (hlog' : d.log = c.log) (hpeer' : d.peer = c.peer)
    (hkeepAlive : d.emitters .keepAlive = c.emitters .keepAlive)
    (hcounter : (d.emitters .disconnect).triggerCounter =
      (c.emitters .disconnect).triggerCounter + 1)
    (hactive : (d.emitters .disconnect).Active →
      (c.emitters .disconnect).triggerCounter + 1 ≠ 10) : At (.ended m t) d := by
  refine ⟨by rw [hlog', hlog], fun peer h => hpeer peer (hpeer' ▸ h), ?_, ?_, fun h => ?_, ?_⟩
  · rwa [hcounter]
  · omega
  · have hlimit := hactive h
    omega
  · rwa [hkeepAlive]

theorem At.onTriggered_disconnect (h : At s c)
    (htask : (c.emitters .disconnect).triggerTask = true) :
    ∃ s', At s' (Client.onTriggered env (c.modifyEmitter .disconnect fun e =>
      { e with triggerTask := false }) .disconnect) := by
  cases s with
  | connecting => exact absurd (.inr htask) h.fits.disconnect
  | admitted => exact absurd rfl h.ne_admitted
  | established => exact absurd (.inr htask) h.fits.disconnect
  | ended n t =>
      have hlt := h.fits.disconnect (.inr htask)
      have hcleared : At (.ended n t) (c.modifyEmitter .disconnect fun e =>
          { e with triggerTask := false }) :=
        h.idles ((Idles.refl c).modifyEmitter .disconnect
          (fun hactive => .inl (hactive.resolve_right (by simp))) fun _ => rfl)
      obtain ⟨m, hm, hlog, hemitters, hpeer⟩ :=
        sendDisconnect_cases env hcleared (h.fits.counted.trans_lt hlt)
      have hcounted := h.fits.counted
      have htold := hcleared.fits.told
      refine ⟨.ended m t, ?_⟩
      unfold Client.onTriggered Client.trigger
      dsimp only
      generalize Client.sendDisconnect env (c.modifyEmitter .disconnect fun e =>
        { e with triggerTask := false }) = d at hlog hemitters hpeer ⊢
      have hcounter : (d.emitters .disconnect).triggerCounter =
          (c.emitters .disconnect).triggerCounter := by
        rw [hemitters]
        simp [Client.modifyEmitter]
      rw [← hemitters] at htold
      split
      next hlimit =>
        have hstopped : At (.ended m t) ((d.modifyEmitter .disconnect fun e =>
            { e with triggerCounter := e.triggerCounter + 1 }).emitterStop .disconnect) := by
          refine .counted hlog hpeer (by omega) (by omega) htold rfl rfl ?_ ?_ ?_
          · simp [Client.emitterStop, Client.modifyEmitter]
          · simp [Client.emitterStop, Client.modifyEmitter]
          · simp [Emitter.Active, Client.emitterStop, Client.modifyEmitter, hemitters]
        exact hstopped.idles ((Idles.refl _).emitterStop .disconnect).socketStop
      next hlimit =>
        refine .counted hlog hpeer (by omega) (by omega) htold rfl rfl ?_ ?_ fun _ heq =>
          hlimit ⟨by decide, ?_⟩
        · simp [Client.modifyEmitter]
        · simp [Client.modifyEmitter]
        · simpa [Client.modifyEmitter, EmitterName.limit] using heq.symm

theorem emitterStart_cases (env : ClientEnv) (c : Client) (name : EmitterName) :
    c.emitterStart env name = (c, false) ∨ c.emitterStart env name =
      (c.modifyEmitter name fun e => { e with running := true, triggerCounter := 0 }, true) := by
  unfold Client.emitterStart
  split
  · exact .inl rfl
  · split
    · exact .inr rfl
    · exact .inl rfl

theorem Idles.emitterStart_response (h : Idles c c') (env : ClientEnv) :
    Idles c (c'.emitterStart env .response).1 := by
  rcases emitterStart_cases env c' .response with heq | heq
  · rw [heq]
    exact h
  · rw [heq]
    dsimp only
    exact h.modifyEmitter_of_ne .response (by decide) (by decide) _

theorem At.emitterStart_disconnect {t : ℕ} (h : At (.ended 0 t) c) (env : ClientEnv) :
    At (.ended 0 t) (c.emitterStart env .disconnect).1 := by
  rcases emitterStart_cases env c .disconnect with heq | heq
  · rw [heq]
    exact h
  · rw [heq]
    refine ⟨h.log, h.fits.peer, Nat.zero_le _, by decide, fun _ => ?_, ?_⟩
    · simp [Client.modifyEmitter]
    · simpa [Client.modifyEmitter] using h.fits.told

theorem At.disconnectPeer (h : At s c) : ∃ s', At s' (disconnectPeer env c) := by
  unfold Client.disconnectPeer
  split
  · exact ⟨s, h⟩
  next peer hpeer =>
    split
    · exact ⟨s, h⟩
    next hconnected =>
      have hleaving : At s ((c.emitterStop .keepAlive).modifyPeer fun peer =>
          { peer with state := .disconnecting }) :=
        h.idles (((Idles.refl c).emitterStop _).modifyPeer fun _ =>
          .inl (by decide : PeerState.disconnecting.Settled))
      have hs := h.of_connected hpeer (not_not.mp hconnected)
      have hstarted := (hleaving.leave hs fun peer hpeer => by
        obtain ⟨_, -, rfl⟩ := Option.map_eq_some_iff.mp hpeer
        exact (by decide : PeerState.disconnecting.Settled)).emitterStart_disconnect env
      dsimp only
      split
      · exact ⟨_, hstarted⟩
      · exact ⟨_, hstarted.idles (Idles.refl _).socketStop⟩

theorem state_validate (peer : Peer) (address : Address) (header : Header) :
    (validate peer address header).1.state = peer.state := by
  unfold validate
  split
  · rfl
  · split
    · rfl
    · rfl
    · split <;> rfl
    · split <;> rfl
    · split <;> rfl
    · rfl
    · rfl

theorem connected_of_validate {peer : Peer} {address : Address} {header : Header}
    (htype : header.type = .payload) (hpasses : (validate peer address header).2 = true) :
    peer.state = .connected := by
  unfold validate at hpasses
  rw [htype] at hpasses
  split at hpasses
  · cases hpasses
  · dsimp only at hpasses
    split at hpasses
    next hconnected => exact hconnected
    next => cases hpasses

theorem At.accept (h : At s c) (address : Address) (datagram : Datagram) :
    At s (accept env c address datagram) := by
  unfold Client.accept
  split
  · exact h
  next hrunning =>
  split
  · exact h
  split
  · exact h.idles (Idles.refl c).fault
  next peer hpeer =>
  have hvalidated : At s { c with peer := some (validate peer address datagram.header).1 } := by
    refine h.idles { Idles.refl c with peer := fun peer' hpeer' => .inr ⟨peer, hpeer, ?_⟩ }
    cases hpeer'
    exact state_validate ..
  dsimp only
  split
  next hpasses =>
    split
    · refine At.idles ?_ ((Idles.refl _).modifyPeer fun _ => .inr rfl)
      refine ⟨hvalidated.log, ?_⟩
      cases s with
      | connecting =>
          refine ⟨h.fits.keepAlive, h.fits.disconnect, fun id r hr htype => ?_,
            hvalidated.fits.peer⟩
          simp only [Client.setReceiver, Function.update_apply] at hr
          split at hr
          · cases hr
            exact h.fits.peer (not_not.mp hrunning) peer hpeer
              (connected_of_validate htype hpasses)
          · exact h.fits.receivers id r hr htype
      | admitted => exact absurd rfl h.ne_admitted
      | established => exact ⟨h.fits.disconnect, hvalidated.fits.peer⟩
      | ended n t => exact ⟨hvalidated.fits.peer, h.fits.counted, h.fits.limited,
          h.fits.disconnect, h.fits.told⟩
    · exact hvalidated
  · exact hvalidated

theorem At.recvChallenge (h : At s c) {peer : Peer} (hs : peer.state.Entering → s = .connecting)
    (sequence : UInt64) (token : Crypto.SealedChallenge) :
    At s (recvChallenge env c peer sequence token) := by
  unfold Client.recvChallenge
  split
  · exact h
  next hrequest =>
    obtain rfl := hs (.inl (not_not.mp hrequest))
    have hresponse : At .connecting (c.modifyPeer fun peer =>
        { peer with state := .response }) := by
      refine ⟨h.log, h.fits.keepAlive, h.fits.disconnect, h.fits.receivers,
        fun _ peer' hpeer' => ?_⟩
      obtain ⟨_, -, rfl⟩ := Option.map_eq_some_iff.mp hpeer'
      simp
    have htaken : At .connecting { (c.modifyPeer fun peer =>
        { peer with state := .response }).emitterStop .request with
          challengeTokenSequence := sequence, challengeTokenData := token } :=
      hresponse.idles (((Idles.refl _).emitterStop .request).trans
        (.of_eq rfl rfl rfl (fun hrunning => hrunning) rfl))
    have hstarted := htaken.idles ((Idles.refl _).emitterStart_response env)
    dsimp only
    split
    · exact hstarted
    · exact hstarted.idles (Idles.refl _).socketStop

theorem At.stopConnecting (hlog : ClientSession.connecting.trace c.log = some .connecting)
    (hkeepAlive : ¬ (c.emitters .keepAlive).Active)
    (hdisconnect : ¬ (c.emitters .disconnect).Active)
    (hreceivers : ∀ id r, c.receivers id = some r → r.datagram.header.type ≠ .payload) :
    At .connecting c.socketStop := by
  unfold Client.socketStop
  split
  next hstopped =>
    exact ⟨hlog, hkeepAlive, hdisconnect, hreceivers, fun hrunning => absurd hrunning hstopped⟩
  next =>
    exact ⟨hlog, hkeepAlive, hdisconnect, hreceivers, fun hrunning => by cases hrunning⟩

theorem At.connect (hlog : ClientSession.connecting.trace c.log = some .connecting)
    (hfits : InSession c) (clientId : Int64) :
    At .established ((c.note (.connectResult .success)).note (.connected clientId)) where
  log := by
    rw [Client.note, Client.note, ClientSession.trace_append, ClientSession.trace_append, hlog]
    rfl
  fits := ⟨hfits.disconnect, hfits.peer⟩

theorem At.recvKeepAlive (h : At s c) {peer : Peer} (hs : peer.state.Entering → s = .connecting)
    (clientId : Int64) : ∃ s', At s' (recvKeepAlive env c peer clientId) := by
  unfold Client.recvKeepAlive
  split
  · exact ⟨s, h⟩
  next hresponse =>
    obtain rfl := hs (.inr (not_not.mp hresponse))
    have hpeer : ∀ peer', (c.modifyPeer fun peer =>
        { peer with state := .connected, clientId := clientId }).peer = some peer' →
        ¬ peer'.state.Entering := fun peer' hpeer' => by
      obtain ⟨_, -, rfl⟩ := Option.map_eq_some_iff.mp hpeer'
      exact (by decide : ¬ PeerState.connected.Entering)
    have hstopped := At.stopConnecting (c := (c.modifyPeer fun peer =>
      { peer with state := .connected, clientId := clientId }).emitterStop .response) h.log
      h.fits.keepAlive h.fits.disconnect h.fits.receivers
    dsimp only
    rcases emitterStart_cases env ((c.modifyPeer fun peer =>
      { peer with state := .connected, clientId := clientId }).emitterStop .response)
      .keepAlive with heq | heq
    · rw [heq]
      exact ⟨_, hstopped⟩
    · rw [heq]
      refine ⟨_, At.connect ?_ ⟨?_, ?_⟩ clientId⟩
      · exact h.log
      · simpa [Client.modifyEmitter, Client.emitterStop, Client.modifyPeer] using h.fits.disconnect
      · exact hpeer

theorem At.recvDisconnect (h : At s c) {peer : Peer}
    (hs : peer.state = .connected → s = .connecting ∨ s = .established) :
    ∃ s', At s' (recvDisconnect c peer) := by
  unfold Client.recvDisconnect
  split
  · exact ⟨s, h⟩
  next hconnected =>
    have hleaving : At s (c.modifyPeer fun peer => { peer with state := .disconnected }) :=
      h.idles ((Idles.refl c).modifyPeer fun _ =>
        .inl (by decide : PeerState.disconnected.Settled))
    refine ⟨_, (hleaving.leave (hs (not_not.mp hconnected)) fun peer hpeer => ?_).idles
      (Idles.refl _).socketStop⟩
    obtain ⟨_, -, rfl⟩ := Option.map_eq_some_iff.mp hpeer
    exact (by decide : PeerState.disconnected.Settled)

theorem At.recvPacket (h : At s c) {peer : Peer} (id : ReceiverId) (datagram : Datagram)
    (packet : Packet) (hentering : peer.state.Entering → s = .connecting)
    (hconnected : peer.state = .connected → s = .connecting ∨ s = .established)
    (hpayload : datagram.header.type = packet.type) (hdatagram : s = .connecting →
      datagram.header.type ≠ .payload) :
    ∃ s', At s' (recvPacket env c peer id datagram packet) := by
  cases packet with
  | payload data =>
      refine ⟨s, At.note h ?_ h.fits⟩
      cases s with
      | connecting => exact absurd hpayload (hdatagram rfl)
      | admitted => exact absurd rfl h.ne_admitted
      | established => rfl
      | ended n t => rfl
  | denied => exact ⟨s, h.idles (Idles.refl c).recvDenied⟩
  | challenge sequence token => exact ⟨s, h.recvChallenge hentering sequence token⟩
  | disconnect => exact h.recvDisconnect hconnected
  | keepAlive clientId => exact h.recvKeepAlive hentering clientId
  | request _ _ _ => exact ⟨s, h⟩
  | response _ _ => exact ⟨s, h⟩

theorem At.receiverComplete (h : At s c) (id : ReceiverId) (workerFailed : Bool) :
    ∃ s', At s' (receiverComplete env c id workerFailed) := by
  unfold Client.receiverComplete
  split
  · exact ⟨s, h⟩
  next r hreceiver =>
  have htaken : At s (c.setReceiver id none) := h.idles ((Idles.refl c).take id)
  dsimp only
  split
  · exact ⟨s, htaken⟩
  have herased : At s ((c.setReceiver id none).modifyPeer fun peer =>
      { peer with receivers := peer.receivers.erase id }) :=
    htaken.idles ((Idles.refl _).modifyPeer fun _ => .inr rfl)
  unfold handleReceiverComplete
  split
  · exact ⟨s, herased⟩
  split
  next peer packet hpeer hpacket =>
    split
    · have hheard : At s (((c.setReceiver id none).modifyPeer fun peer =>
          { peer with receivers := peer.receivers.erase id }).modifyPeer fun peer =>
            { peer with lastRecvTime := r.recvTime }) :=
        herased.idles ((Idles.refl _).modifyPeer fun _ => .inr rfl)
      refine hheard.recvPacket id r.datagram packet (herased.connecting_of_entering hpeer)
        (herased.of_connected hpeer) ?_ ?_
      · split at hpacket
        · cases hpacket
        · exact type_of_processEntry hpacket
      · rintro rfl
        exact h.fits.receivers id r hreceiver
    · exact ⟨s, herased⟩
  · exact ⟨s, herased⟩

theorem At.socketSend (h : At s c) (views : List (List UInt8)) :
    At s (socketSend env c views) := by
  unfold Client.socketSend
  split
  · exact h
  next peer hpeer =>
  split
  next hsendable =>
    have hnumbered : At s (c.modifyPeer fun peer => peer.nextSequence.1) :=
      h.idles ((Idles.refl c).modifyPeer fun _ => .inr rfl)
    dsimp only
    split
    · refine hnumbered.dispatch ?_
      simp only [sendable, Bool.and_eq_true, decide_eq_true_eq] at hsendable
      obtain ⟨⟨⟨⟨⟨hrunning, hconnected⟩, -⟩, -⟩, -⟩, -⟩ := hsendable
      cases s with
      | connecting => exact absurd hconnected (h.fits.peer hrunning peer hpeer)
      | admitted => exact absurd rfl h.ne_admitted
      | established => rfl
      | ended n t => exact absurd hconnected (h.fits.peer peer hpeer).2
    · exact hnumbered
  · exact h

theorem At.step (h : At s c) (i : ClientInput) : ∃ s', At s' (step c i) := by
  have hc : At s { c with tick := c.tick + 1 } :=
    h.idles (.of_eq rfl rfl rfl (fun hrunning => hrunning) rfl)
  unfold Client.step
  split
  · exact ⟨s, h⟩
  · unfold handle
    cases i.event with
    | accept address datagram => exact ⟨s, hc.accept address datagram⟩
    | receiverComplete id workerFailed => exact hc.receiverComplete id workerFailed
    | senderComplete id => exact ⟨s, hc.idles ((Idles.refl _).senderComplete id)⟩
    | send views => exact ⟨s, hc.socketSend views⟩
    | disconnectPeer => exact hc.disconnectPeer
    | triggerTimer name =>
        dsimp only
        split
        next hrunning =>
          exact ⟨s, hc.idles ((Idles.refl _).modifyEmitter name (fun _ => .inl hrunning)
            fun _ => rfl)⟩
        next => exact ⟨s, hc⟩
    | triggered name =>
        dsimp only
        split
        next htask =>
          by_cases hname : name = .disconnect
          · subst hname
            exact hc.onTriggered_disconnect htask
          · exact hc.onTriggered name hname htask
        next => exact ⟨s, hc⟩
    | timeoutTimer =>
        dsimp only
        split
        · exact ⟨s, hc.idles ((Idles.refl _).modifyEmitter_of_ne .request (by decide)
            (by decide) _)⟩
        · exact ⟨s, hc⟩
    | timedOut =>
        dsimp only
        split
        · exact ⟨s, hc.idles ((Idles.refl _).modifyEmitter_of_ne .request (by decide)
            (by decide) _).handleRequestTimeout⟩
        · exact ⟨s, hc⟩
    | stop => exact ⟨s, hc.idles (Idles.refl _).socketStop⟩
    | stopDeferred =>
        dsimp only
        split
        · exact ⟨s, hc.idles (Idles.refl _).stopDeferred⟩
        · exact ⟨s, hc⟩

theorem At.run (h : At s c) (is : List ClientInput) :
    ∃ s', At s' (Machine.run Client.step c is) := by
  induction is generalizing c s with
  | nil => exact ⟨s, h⟩
  | cons i is ih =>
      obtain ⟨s', hstep⟩ := h.step i
      exact ih hstep

theorem at_start (token : ClientToken) (address : Address) (payloadCapacity : ℕ)
    (hrtime leftover : UInt64) :
    At .connecting (start token address payloadCapacity hrtime leftover) where
  log := rfl
  fits := by
    refine ⟨?_, ?_, fun _ _ hr => ?_, fun _ peer hpeer => ?_⟩
    · simp [start, Emitter.Active]
    · simp [start, Emitter.Active]
    · cases hr
    · cases hpeer
      simp

end Handlers

/-- Whatever a client receives, sends and is told by its timers, what it does is one session: it is
connected once at most, sends payloads after it was connected and before the application was told
that the session is over, sends ten Disconnect packets at most, and tells the application twice at
most. -/
theorem session_run (token : ClientToken) (address : Address) (payloadCapacity : ℕ)
    (hrtime leftover : UInt64) (is : List ClientInput) :
    let c := run step (start token address payloadCapacity hrtime leftover) is
    (∃ session, ClientSession.connecting.trace c.log = some session) ∧
      ClientSession.Proper c.log := by
  obtain ⟨session, h⟩ := (at_start token address payloadCapacity hrtime leftover).run is
  exact ⟨⟨session, h.log⟩, ClientSession.proper_of_trace h.log⟩

/-- A client is connected, sends a payload and leaves. -/
def shortSession : List ClientInput :=
  [⟨.plentiful 0, .accept (sampleAddress 9) (World.serverPacket ⟨.challenge, 0⟩
      (.challenge 0 (.encrypted 2 0 () ⟨1, 0⟩)))⟩,
    ⟨.plentiful 0, .receiverComplete 1 false⟩,
    ⟨.plentiful 0, .accept (sampleAddress 9) (World.serverPacket ⟨.keepAlive, 0⟩ (.keepAlive 1))⟩,
    ⟨.plentiful 0, .receiverComplete 3 false⟩, ⟨.plentiful 0, .send [[42]]⟩,
    ⟨.plentiful 0, .disconnectPeer⟩, ⟨.plentiful 0, .triggerTimer .disconnect⟩,
    ⟨.plentiful 0, .triggered .disconnect⟩]

theorem session_run_shortSession :
    ClientSession.connecting.trace (run step World.sampleClient shortSession).log =
        some (.ended 1 1) ∧
      ClientSession.Proper (run step World.sampleClient shortSession).log :=
  ⟨by decide +kernel, (session_run _ _ _ _ _ shortSession).2⟩

end Client

end Protocol

end PomeloUdp
