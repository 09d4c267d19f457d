import PomeloUdp.Protocol.AddressMap
import PomeloUdp.Protocol.Agreement
import PomeloUdp.Protocol.ClientInjection
import PomeloUdp.Protocol.DeniedRelease
import PomeloUdp.Protocol.InjectionGhosts

/-!
# Forged packets and acceptance

An attacker injects datagrams that do not decrypt into a run of a server or a client. The run is
compared with the one without them: `Unaffected` says that the same genuine payload, keep-alive
and disconnect packets pass, and that no injected datagram changes a replay protector. It holds in
a run in which replay protection refuses every injected packet, no genuine request meets the
peer of an injected one, no genuine response meets an injected response, and no growth of the
server's address map displaces an entry, with the addresses of injected requests and without them.
-/

namespace PomeloUdp

namespace Protocol

open Machine

section Runs

variable {ι σ τ ο : Type}

theorem along_injected {f : σ → Marked ι → σ × ο} {J live : σ → Prop} {tick : σ → ℕ}
    (hstep : ∀ s e, J s → J (f s e).1)
    (hnext : ∀ s e, J s → live (f s e).1 → live s ∧ tick (f s e).1 = tick s + 1)
    {I : ℕ → Bool} {s : σ} {n : ℕ} (hs : J s) (hn : live s → tick s = n) {es : List (Marked ι)}
    (hI : ∀ k e, es[k]? = some e → I (n + k + 1) = e.injected) :
    Along (next f) (fun s e => live s → I (tick s + 1) = e.injected) s es := by
  induction es generalizing s n with
  | nil => trivial
  | cons e es ih =>
      refine ⟨fun hlive => ?_, ih (hstep s e hs) (n := n + 1) (fun hlive => ?_) fun k e' he' => ?_⟩
      · rw [hn hlive]
        exact hI 0 e rfl
      · obtain ⟨hlive', htick⟩ := hnext s e hs hlive
        rw [← hn hlive']
        exact htick
      · have h := hI (k + 1) e' he'
        rw [← h]
        congr 1
        omega

theorem injectedSteps_eq (es : List (Marked ι)) (k : ℕ) (e : Marked ι) (he : es[k]? = some e) :
    injectedSteps es (0 + k + 1) = e.injected := by
  simp [injectedSteps, he]

end Runs

namespace Server

section Runs

variable {I : ℕ → Bool} {s d : Server}

theorem tick_step (h : Table s) (hn : Named s) (i : Input) : (step s i).tick = s.tick + 1 :=
  invariant_step (I := fun t => t.tick = s.tick + 1) h hn i rfl
    fun t a _ _ ht _ => (act_tick i.env t a).trans ht

/-- `d` is the server without the injected datagrams, while both run. -/
structure Follows (I : ℕ → Bool) (s d : Server) : Prop where
  table : Table s
  named : Named s
  table' : Table d
  named' : Named d
  running : s.state = .running → Hides I s d
  stopped : s.state ≠ .running → d.state ≠ .running

theorem withoutInjected_eq (d : Server) (e : Marked Input) :
    ∃ i, (withoutInjected d e).1 = step d i := by
  unfold withoutInjected
  split
  · exact ⟨⟨e.input.env, .idle⟩, rfl⟩
  · exact ⟨e.input, rfl⟩

theorem passing_stopped (hstopped : s.state ≠ .running) (i : Input) : s.passing i = none := by
  unfold passing
  split
  · split
    · unfold validateIncoming
      rw [if_pos (show s.ticked.state ≠ .running from hstopped)]
      rfl
    · rfl
  · rfl

theorem Hides.passing (h : Hides I s d) (hnamed : Named s) {i : Input}
    (htick : I (s.tick + 1) = false)
    (hclear : ∀ address datagram, i.event = .accept address datagram →
      s.unhindered I i.env address datagram = true) : d.passing i = s.passing i := by
  unfold Server.passing
  split
  · rename_i address datagram hevent
    split
    · have hvalidated := h.ticked.validateIncoming i.env htick
        (fun id r hr hp => absurd (hnamed.peers id r _ hr hp) (by simp)) address datagram
        (hclear address datagram hevent)
      rw [hvalidated.passed]
    · rfl
  · rfl

theorem Follows.step (h : Follows I s d) {e : Marked Input} (htick : I (s.tick + 1) = e.injected)
    (hforged : s.forged e = true) (hharmless : s.harmless I e = true) :
    Follows I (withInjected s e).1 (withoutInjected d e).1 ∧
      (withInjected s e).2 = (withoutInjected d e).2 := by
  obtain ⟨i', hi'⟩ := withoutInjected_eq d e
  obtain ⟨htable, hnamed⟩ := table_step h.table h.named e.input
  obtain ⟨htable', hnamed'⟩ := table_step h.table' h.named' i'
  rw [← hi'] at htable' hnamed'
  by_cases hrunning : s.state = .running
  · have hd : d.state = .running := (h.running hrunning).state.trans hrunning
    have hhides : e.input.event ≠ .stop →
        Hides I (Server.step s e.input) (withoutInjected d e).1 :=
      (h.running hrunning).step h.table h.named hrunning htick hforged hharmless
    have hstop : e.input.event = .stop →
        (Server.step s e.input).state = .stopping ∧ (withoutInjected d e).1.state = .stopping := by
      obtain ⟨injected, env, event⟩ := e
      rintro rfl
      have hstops : ∀ t : Server, t.state = .running →
          (Server.step t ⟨env, .stop⟩).state = .stopping := by
        intro t ht
        change (socketStop t.ticked).state = _
        unfold socketStop
        rw [if_neg (not_not.mpr (show t.ticked.state = .running from ht))]
      cases injected with
      | true => cases hforged
      | false => exact ⟨hstops s hrunning, hstops d hd⟩
    refine ⟨⟨htable, hnamed, htable', hnamed', fun hstill => ?_, fun hended => ?_⟩, ?_⟩
    · refine hhides fun hevent => ?_
      rw [show (withInjected s e).1.state = .stopping from (hstop hevent).1] at hstill
      cases hstill
    · by_cases hevent : e.input.event = .stop
      · rw [(hstop hevent).2]
        decide
      · rw [(hhides hevent).state]
        exact hended
    · obtain ⟨injected, i⟩ := e
      cases injected with
      | true => rfl
      | false =>
          refine ((h.running hrunning).passing h.named htick ?_).symm
          intro address datagram hevent
          unfold harmless at hharmless
          rw [hevent] at hharmless
          exact hharmless
  · have hd := h.stopped hrunning
    have hended : (withInjected s e).1.state ≠ .running := fun hstill =>
      hrunning (running_of_step h.table h.named e.input hstill)
    refine ⟨⟨htable, hnamed, htable', hnamed', fun hstill => absurd hstill hended, fun _ => ?_⟩, ?_⟩
    · rw [hi']
      exact fun hstill => hd (running_of_step h.table' h.named' i' hstill)
    · unfold withInjected withoutInjected
      rw [passing_stopped hrunning, passing_stopped hd, ite_self]
      split
      · rfl
      · rfl

theorem Hides.idle (h : Hides I s d) {e : Marked Input} (he : handlesInjected I e = true) :
    (withoutInjected d e).1.peers = d.peers := by
  obtain ⟨injected, env, event⟩ := e
  cases injected with
  | true => rfl
  | false =>
      cases event with
      | receiverComplete id workerFailed =>
          have hnothing := (h.ticked.absent env).1 id workerFailed he
          change (Server.receiverComplete env d.ticked id workerFailed).peers = d.peers
          rw [hnothing]
      | _ => cases he

theorem protector_stopped (hstopped : s.state ≠ .running) {e : Marked Input}
    (hforged : s.forged e = true) (he : handlesInjected I e = true) (p : PeerId) :
    ((step s e.input).peers p).replayProtector = (s.peers p).replayProtector := by
  obtain ⟨injected, env, event⟩ := e
  cases event with
  | accept address datagram =>
      change ((accept env s.ticked address datagram).peers p).replayProtector = _
      unfold accept validateIncoming
      rw [if_pos (show s.ticked.state ≠ .running from hstopped)]
  | receiverComplete id workerFailed =>
      change ((receiverComplete env s.ticked id workerFailed).peers p).replayProtector = _
      unfold receiverComplete
      split
      · rfl
      dsimp only
      split
      · rfl
      split
      · rfl
      · rename_i q _
        unfold handleReceiverComplete
        split
        · by_cases hpq : p = q
          · subst hpq
            simp [modifyPeer, setReceiver]
          · simp [modifyPeer, setReceiver, Function.update_of_ne hpq]
        · rename_i hrunning
          exact absurd (not_not.mp hrunning) hstopped
  | _ =>
      cases injected with
      | true => cases hforged
      | false => cases he

theorem Follows.protector (h : Follows I s d) {e : Marked Input}
    (htick : I (s.tick + 1) = e.injected) (hforged : s.forged e = true)
    (hharmless : s.harmless I e = true) (he : handlesInjected I e = true) {p : PeerId}
    (hp : I p = false) :
    ((Server.step s e.input).peers p).replayProtector = (s.peers p).replayProtector := by
  by_cases hrunning : s.state = .running
  · have hhides := h.running hrunning
    have hevent : e.input.event ≠ .stop := by
      obtain ⟨injected, env, event⟩ := e
      rintro rfl
      cases injected with
      | true => cases hforged
      | false => cases he
    have hnext := hhides.step h.table h.named hrunning htick hforged hharmless hevent
    have hafter := hnext.peers p hp
    rw [hhides.idle he, hhides.peers p hp] at hafter
    exact (congrArg Peer.replayProtector hafter).symm
  · exact protector_stopped hrunning hforged he p

theorem hides_start (I : ℕ → Bool) (o : ServerOptions) : Hides I (start o) (start o) := by
  have hempty : ∀ {α : Type} (x : α), x ∉ ([] : List α) := fun _ hx => absurd hx (by simp)
  constructor
  · rfl
  · exact fun _ _ => rfl
  · exact fun _ _ => rfl
  · exact fun _ => rfl
  · exact fun _ => rfl
  · exact fun id => (ite_self _).symm
  · exact fun id => (ite_self _).symm
  · exact fun _ _ => .inr (.inr rfl)
  · exact fun _ x _ hx => absurd hx (by simp [start, Peer.zero])
  · exact fun _ _ _ x hx => absurd hx (hempty x)
  · exact fun _ _ id hid => absurd hid (hempty id)
  · exact fun _ _ id hid => absurd hid (hempty id)
  · exact fun _ _ _ hsender => absurd hsender (by simp [start])
  · exact fun _ _ _ _ hr => absurd hr (by simp [start])
  · exact fun _ _ _ hr => absurd hr (by simp [start])

theorem follows_start (I : ℕ → Bool) (o : ServerOptions) : Follows I (start o) (start o) :=
  ⟨table_start o, named_start o, table_start o, named_start o, fun _ => hides_start I o,
    fun hstopped => hstopped⟩

/-- Injected datagrams that are harmless do not affect a server. -/
theorem unaffected_run (o : ServerOptions) (es : List (Marked Input))
    (hforged : Along (next withInjected) (fun s e => s.forged e = true) (start o) es)
    (hharmless : Along (next withInjected)
      (fun s e => s.harmless (injectedSteps es) e = true) (start o) es) :
    Unaffected (injectedSteps es) (start o) es := by
  have htick : Along (next withInjected)
      (fun s e => True → injectedSteps es (s.tick + 1) = e.injected) (start o) es := by
    refine along_injected (J := fun s => Table s ∧ Named s) ?_ ?_
      ⟨table_start o, named_start o⟩ (fun _ => rfl) (injectedSteps_eq es)
    · exact fun s e h => table_step h.1 h.2 e.input
    · exact fun s e h _ => ⟨trivial, tick_step h.1 h.2 e.input⟩
  have hes := (hforged.and hharmless).and htick
  refine ⟨(simulation_run (R := Follows (injectedSteps es)) ?_ (follows_start _ o) hes).2, ?_⟩
  · intro s d e h he
    exact h.step (he.2 trivial) he.1.1 he.1.2
  · refine along_run (I := fun s => ∃ d, Follows (injectedSteps es) s d) ?_ ?_
      ⟨start o, follows_start _ o⟩ hes
    · rintro s e ⟨d, h⟩ he
      exact ⟨(withoutInjected d e).1, (h.step (he.2 trivial) he.1.1 he.1.2).1⟩
    · rintro s e ⟨d, h⟩ he hhandles p hp
      exact h.protector (he.2 trivial) he.1.1 he.1.2 hhandles hp

end Runs

end Server

namespace MappedServer

section Runs

/-- A step over the address map, and the genuine packet it lets through. -/
def withInjected (m : MappedServer) (e : Marked Input) :
    MappedServer × Option (PeerId × Datagram) :=
  (m.step e.input, if e.injected then none else m.server.passing e.input)

/-- A step over the address map in which nothing happens if it injects a datagram. -/
def withoutInjected (m : MappedServer) (e : Marked Input) :
    MappedServer × Option (PeerId × Datagram) :=
  if e.injected then (m.step ⟨e.input.env, .idle⟩, none)
  else (m.step e.input, m.server.passing e.input)

/-- No genuine input of the step makes the address map displace an entry. -/
def genuineKeepsPlaces (m : MappedServer) (e : Marked Input) : Prop :=
  e.injected = false → m.keepsPlaces e.input

instance (m : MappedServer) (e : Marked Input) : Decidable (m.genuineKeepsPlaces e) :=
  inferInstanceAs (Decidable (e.injected = false → m.keepsPlaces e.input))

/-- The same genuine packets pass, and injected datagrams do not change the replay protector of
a peer that a genuine request made. -/
def Unaffected (I : ℕ → Bool) (m : MappedServer) (es : List (Marked Input)) : Prop :=
  outputs withInjected m es = outputs withoutInjected m es ∧
    Along (next withInjected) (fun m e => Server.handlesInjected I e = true → ∀ p, I p = false →
      ((m.step e.input).server.peers p).replayProtector =
        (m.server.peers p).replayProtector) m es

variable {m : MappedServer} {es : List (Marked Input)}

theorem along_withInjected (h : m.Represented)
    (hplaces : Along (next withInjected) (fun m e => m.keepsPlaces e.input) m es)
    (P : Server → Marked Input → Prop) :
    Along (next withInjected) (fun m e => P m.server e) m es ↔
      Along (next Server.withInjected) P m.server es := by
  induction es generalizing m with
  | nil => exact Iff.rfl
  | cons e es ih =>
      obtain ⟨hserver, hrepresented⟩ := step_server h hplaces.1
      have hrest := ih (m := m.step e.input) hrepresented hplaces.2
      rw [hserver] at hrest
      exact and_congr_right fun _ => hrest

theorem outputs_withInjected (h : m.Represented)
    (hplaces : Along (next withInjected) (fun m e => m.keepsPlaces e.input) m es) :
    outputs withInjected m es = outputs Server.withInjected m.server es := by
  refine (simulation_run (R := fun m s => m.server = s ∧ m.Represented) ?_ ⟨rfl, h⟩ hplaces).2
  rintro m _ e ⟨rfl, hm⟩ hkeeps
  exact ⟨step_server hm hkeeps, rfl⟩

theorem outputs_withoutInjected (h : m.Represented)
    (hplaces : Along (next withoutInjected) genuineKeepsPlaces m es) :
    outputs withoutInjected m es = outputs Server.withoutInjected m.server es := by
  refine (simulation_run (R := fun m s => m.server = s ∧ m.Represented) ?_ ⟨rfl, h⟩ hplaces).2
  rintro m _ ⟨injected, env, event⟩ ⟨rfl, hm⟩ hkeeps
  cases injected with
  | true => exact ⟨step_server hm trivial, rfl⟩
  | false => exact ⟨step_server hm (hkeeps rfl), rfl⟩

/-- Injected datagrams that are harmless do not affect a server. -/
theorem unaffected_run (overLoad : ℕ → ℕ → Bool) (o : ServerOptions) (es : List (Marked Input))
    (hforged : Along (next withInjected) (fun m e => m.server.forged e = true)
      (start overLoad o) es)
    (hharmless : Along (next withInjected)
      (fun m e => m.server.harmless (injectedSteps es) e = true) (start overLoad o) es)
    (hplaces : Along (next withInjected) (fun m e => m.keepsPlaces e.input) (start overLoad o) es)
    (hgenuine : Along (next withoutInjected) genuineKeepsPlaces (start overLoad o) es) :
    Unaffected (injectedSteps es) (start overLoad o) es := by
  have hstart := represented_start overLoad o
  rw [along_withInjected hstart hplaces fun s e => s.forged e = true] at hforged
  rw [along_withInjected hstart hplaces fun s e => s.harmless (injectedSteps es) e = true]
    at hharmless
  rw [server_start] at hforged hharmless
  obtain ⟨houtputs, hprotector⟩ := Server.unaffected_run o es hforged hharmless
  refine ⟨?_, ?_⟩
  · rw [outputs_withInjected hstart hplaces, outputs_withoutInjected hstart hgenuine, server_start]
    exact houtputs
  · rw [← server_start overLoad o] at hprotector
    exact (along_withInjected hstart hplaces fun s e =>
      Server.handlesInjected (injectedSteps es) e = true → ∀ p, injectedSteps es p = false →
        ((s.step e.input).peers p).replayProtector = (s.peers p).replayProtector).mpr hprotector

end Runs

end MappedServer

namespace Client

/-- Injected datagrams that are harmless do not affect a client. -/
theorem unaffected_run (token : ClientToken) (address : Address) (payloadCapacity : ℕ)
    (hrtime leftover : UInt64) (es : List (Marked ClientInput))
    (hforged : Along (next withInjected) (fun c e => c.forged e = true)
      (start token address payloadCapacity hrtime leftover) es)
    (hharmless : Along (next withInjected) (fun c e => c.harmless e = true)
      (start token address payloadCapacity hrtime leftover) es) :
    Unaffected (injectedSteps es) (start token address payloadCapacity hrtime leftover) es := by
  have htick : Along (next withInjected)
      (fun c e => c.faulted = false → injectedSteps es (c.tick + 1) = e.injected)
      (start token address payloadCapacity hrtime leftover) es := by
    refine along_injected (J := fun _ => True) (fun _ _ _ => trivial) ?_ trivial (fun _ => rfl)
      (injectedSteps_eq es)
    intro c e _ hlive
    have hfaulted : c.faulted = false := by
      by_contra hfaulted
      rw [Bool.not_eq_false] at hfaulted
      have hstays : step c e.input = c := if_pos hfaulted
      change (step c e.input).faulted = false at hlive
      rw [hstays, hfaulted] at hlive
      cases hlive
    exact ⟨hfaulted, (stays_step hfaulted e.input).tick⟩
  have hes := (hforged.and hharmless).and htick
  refine ⟨(simulation_run (R := Hides (injectedSteps es)) ?_ (hides_start ..) hes).2, ?_⟩
  · intro c d e h he
    exact h.step he.2 he.1.1 he.1.2
  · refine along_run (I := fun c => ∃ d, Hides (injectedSteps es) c d) ?_ ?_
      ⟨_, hides_start token address payloadCapacity hrtime leftover⟩ hes
    · rintro c e ⟨d, h⟩ he
      exact ⟨(withoutInjected d e).1, (h.step he.2 he.1.1 he.1.2).1⟩
    · rintro c e ⟨d, h⟩ he hhandles
      exact h.protector (h.step he.2 he.1.1 he.1.2).1 hhandles

end Client

section Results

/-- The runs of a server and of a client that forged datagrams do not affect. -/
theorem forged_unaffected (overLoad : ℕ → ℕ → Bool) (o : ServerOptions) (es : List (Marked Input))
    (token : ClientToken) (address : Address) (payloadCapacity : ℕ) (hrtime leftover : UInt64)
    (cs : List (Marked ClientInput)) :
    (Along (next MappedServer.withInjected) (fun m e => m.server.forged e = true)
        (MappedServer.start overLoad o) es →
      Along (next MappedServer.withInjected)
        (fun m e => m.server.harmless (injectedSteps es) e = true)
        (MappedServer.start overLoad o) es →
      Along (next MappedServer.withInjected) (fun m e => m.keepsPlaces e.input)
        (MappedServer.start overLoad o) es →
      Along (next MappedServer.withoutInjected) MappedServer.genuineKeepsPlaces
        (MappedServer.start overLoad o) es →
      MappedServer.Unaffected (injectedSteps es) (MappedServer.start overLoad o) es) ∧
    (Along (next Client.withInjected) (fun c e => c.forged e = true)
        (Client.start token address payloadCapacity hrtime leftover) cs →
      Along (next Client.withInjected) (fun c e => c.harmless e = true)
        (Client.start token address payloadCapacity hrtime leftover) cs →
      Client.Unaffected (injectedSteps cs)
        (Client.start token address payloadCapacity hrtime leftover) cs) :=
  ⟨MappedServer.unaffected_run overLoad o es,
    Client.unaffected_run token address payloadCapacity hrtime leftover cs⟩

/-- A datagram that is not injected. -/
def ofUser {ι : Type} (i : ι) : Marked ι := ⟨false, i⟩

/-- A packet that no key opens, with the given number. -/
def forgedPacket (type : PacketType) (sequence : UInt64) (length : ℕ) : Datagram :=
  .packet ⟨type, sequence⟩ (.forged 0 length)

/-- A handshake with the sample server, as in `oneConnection`. -/
def serverHandshake : List (Marked Input) :=
  let token := sampleToken 1 11 12
  [ofUser (arrive (sampleAddress 1) (clientRequest 1 0 token)), ofUser (complete 1),
    ofUser (arrive (sampleAddress 1) (clientResponse 2 token 0 0)), ofUser (complete 3)]

/-- The client's payload with the given number. -/
def clientPayload (sequence : UInt64) : Marked Input :=
  ofUser (arrive (sampleAddress 1)
    (clientPacket (sampleToken 1 11 12) ⟨.payload, sequence⟩ (.payload [42])))

/-- A handshake of the sample client. -/
def clientHandshake : List (Marked ClientInput) :=
  [ofUser ⟨.plentiful 0, .accept (sampleAddress 9) (World.serverPacket ⟨.challenge, 0⟩
      (.challenge 0 (.encrypted 2 0 () ⟨1, 0⟩)))⟩,
    ofUser ⟨.plentiful 0, .receiverComplete 1 false⟩,
    ofUser ⟨.plentiful 0, .accept (sampleAddress 9)
      (World.serverPacket ⟨.keepAlive, 0⟩ (.keepAlive 1))⟩,
    ofUser ⟨.plentiful 0, .receiverComplete 3 false⟩]

/-- The server's payload with the given number. -/
def serverPayload (sequence : UInt64) : Marked ClientInput :=
  ofUser ⟨.plentiful 0, .accept (sampleAddress 9)
    (World.serverPacket ⟨.payload, sequence⟩ (.payload [42]))⟩

/-- Forged datagrams that come to nothing: a packet whose number is too old, a request from an
address nobody uses, and a response of a connected client. -/
def forgedInVain : List (Marked Input) :=
  serverHandshake ++ [clientPayload 300,
    ⟨true, arrive (sampleAddress 1) (forgedPacket .payload 1 20)⟩,
    ⟨true, arrive (sampleAddress 2) (.request 0 ⟨true, 7, 100, 5, .forged 0 1024⟩)⟩,
    ofUser (complete 7), clientPayload 299,
    ⟨true, arrive (sampleAddress 1) (forgedPacket .response 400 324)⟩, clientPayload 301]

/-- The same for a client: a packet that is too old, and a challenge that comes too late. -/
def clientForgedInVain : List (Marked ClientInput) :=
  clientHandshake ++ [serverPayload 300,
    ⟨true, .plentiful 0, .accept (sampleAddress 9) (forgedPacket .payload 1 20)⟩,
    ⟨true, .plentiful 0, .accept (sampleAddress 9) (forgedPacket .challenge 400 324)⟩,
    serverPayload 301]

theorem forged_unaffected_inVain :
    MappedServer.Unaffected (injectedSteps forgedInVain)
        (MappedServer.start defaultOverLoad (sampleOptions 1)) forgedInVain ∧
      Client.Unaffected (injectedSteps clientForgedInVain) World.sampleClient
        clientForgedInVain := by
  have h := forged_unaffected defaultOverLoad (sampleOptions 1) forgedInVain
    ((sampleToken 1 11 12).issue 1 0) (sampleAddress 9) 1000 0 0 clientForgedInVain
  refine ⟨h.1 ?_ ?_ ?_ ?_, h.2 ?_ ?_⟩
  · decide +kernel
  · decide +kernel
  · decide +kernel
  · decide +kernel
  · decide +kernel
  · decide +kernel

/-- A forged packet with number 1000 keeps the payload with number 1 out. -/
theorem forged_affects :
    (∃ (o : ServerOptions) (es : List (Marked Input)),
      Along (next MappedServer.withInjected) (fun m e => m.server.forged e = true)
          (MappedServer.start defaultOverLoad o) es ∧
        ¬ MappedServer.Unaffected (injectedSteps es) (MappedServer.start defaultOverLoad o) es) ∧
    ∃ (es : List (Marked ClientInput)),
      Along (next Client.withInjected) (fun c e => c.forged e = true) World.sampleClient es ∧
        ¬ Client.Unaffected (injectedSteps es) World.sampleClient es := by
  refine ⟨⟨sampleOptions 1, serverHandshake ++
      [⟨true, arrive (sampleAddress 1) (forgedPacket .payload 1000 20)⟩, clientPayload 1], ?_, ?_⟩,
    ⟨clientHandshake ++
      [⟨true, .plentiful 0, .accept (sampleAddress 9) (forgedPacket .payload 1000 20)⟩,
        serverPayload 1], ?_, ?_⟩⟩
  · decide +kernel
  · rintro ⟨houtputs, -⟩
    revert houtputs
    decide +kernel
  · decide +kernel
  · rintro ⟨houtputs, -⟩
    revert houtputs
    decide +kernel

end Results

end Protocol

end PomeloUdp
