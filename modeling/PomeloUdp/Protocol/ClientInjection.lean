import PomeloUdp.Protocol.Injection
import PomeloUdp.Protocol.ReceiverFilter

/-!
# A client with and without injected datagrams

A client has one peer and looks at its receivers only when they complete, so the client without
the injected datagrams is the client without their receivers (`Hides`). The two stay so over a
step, as long as replay protection refuses what is injected.
-/

namespace PomeloUdp

namespace Protocol

open Machine

namespace Client

section Injected

variable (I : ℕ → Bool) (c : Client)

/-- Whether validation lets a datagram through. -/
def passes (address : Address) (datagram : Datagram) : Bool :=
  !c.faulted && decide (c.state = .running) && datagram.validateBodyLength &&
    c.peer.any fun peer => (validate peer address datagram.header).2

/-- The payload, keep-alive or disconnect packet that a step lets through. -/
def passing (i : ClientInput) : Option Datagram :=
  match i.event with
  | .accept address datagram =>
      if datagram.header.type.isProtected && c.passes address datagram then some datagram else none
  | _ => none

/-- A step in which nothing happens. -/
def skip : Client := if c.faulted then c else { c with tick := c.tick + 1 }

/-- A step, and the genuine packet it lets through. -/
def withInjected (e : Marked ClientInput) : Client × Option Datagram :=
  (step c e.input, if e.injected then none else c.passing e.input)

/-- A step in which nothing happens if it injects a datagram. -/
def withoutInjected (e : Marked ClientInput) : Client × Option Datagram :=
  if e.injected then (c.skip, none) else (step c e.input, c.passing e.input)

/-- An injected datagram gets no receiver, or one whose decryption fails. -/
def forged (e : Marked ClientInput) : Bool :=
  !e.injected ||
    match e.input.event with
    | .accept _ _ =>
        ((step c e.input).receivers (c.tick + 1)).all fun r =>
          (processEntry r.cryptoCtx r.datagram).isNone
    | _ => false

/-- The packet, if it is under replay protection, is not for the peer in its state, or replay
protection refuses it. -/
def refuses (address : Address) (datagram : Datagram) : Bool :=
  !datagram.header.type.isProtected || decide (c.state ≠ .running) ||
    !datagram.validateBodyLength ||
      c.peer.all fun peer =>
        decide (peer.address ≠ some address) ||
          !(decide (peer.state = .connected) ||
            decide (datagram.header.type = .keepAlive) && decide (peer.state = .response)) ||
          peer.replayProtector.refuses datagram.header.sequence

/-- Replay protection refuses an injected datagram. -/
def harmless (e : Marked ClientInput) : Bool :=
  !e.injected ||
    match e.input.event with
    | .accept address datagram => c.refuses address datagram
    | _ => true

/-- A datagram is injected, or the receiver of an injected one completes. -/
def handlesInjected (e : Marked ClientInput) : Bool :=
  e.injected ||
    match e.input.event with
    | .receiverComplete id _ => I id
    | _ => false

/-- The same genuine packets pass, and injected datagrams do not change the replay protector. -/
def Unaffected (es : List (Marked ClientInput)) : Prop :=
  outputs withInjected c es = outputs withoutInjected c es ∧
    Along (next withInjected) (fun c e => handlesInjected I e = true →
      (step c e.input).peer.map Peer.replayProtector = c.peer.map Peer.replayProtector) c es

end Injected

section Hides

variable {I : ℕ → Bool} {c d : Client}

/-- The receivers of datagrams that are not injected. -/
def genuine (I : ℕ → Bool) : ReceiverFilter where
  keep id _ := !I id
  listed id := !I id
  keep_canceled _ _ := rfl
  keep_listed _ _ h := h

/-- All receivers but those of injected datagrams that decrypt. -/
def failing (I : ℕ → Bool) : ReceiverFilter where
  keep id r := !I id || (processEntry r.cryptoCtx r.datagram).isNone
  listed _ := true
  keep_canceled _ _ := rfl
  keep_listed _ _ _ := rfl

/-- `d` is `c` without the receivers of injected datagrams, which all fail. -/
structure Hides (I : ℕ → Bool) (c d : Client) : Prop where
  same : c.filter (genuine I) = d
  fails : c.filter (failing I) = c
  present : c.faulted = false → c.state = .running → c.peer.isSome = true

theorem validate_protected {peer : Peer} {address : Address} {header : Header}
    (hprotected : header.type.isProtected = true)
    (hpasses : (validate peer address header).2 = true) :
    peer.address = some address ∧
      (peer.state = .connected ∨ header.type = .keepAlive ∧ peer.state = .response) ∧
        (peer.protectReplay header.sequence).2 = true := by
  unfold validate at hpasses
  split at hpasses
  · cases hpasses
  rename_i haddress
  rw [not_not] at haddress
  cases htype : header.type with
  | keepAlive =>
      rw [htype] at hpasses
      dsimp only at hpasses
      split at hpasses
      · rename_i hstate
        exact ⟨haddress, hstate.imp_right fun hresponse => ⟨rfl, hresponse⟩, hpasses⟩
      · cases hpasses
  | payload =>
      rw [htype] at hpasses
      dsimp only at hpasses
      split at hpasses
      · rename_i hstate
        exact ⟨haddress, .inl hstate, hpasses⟩
      · cases hpasses
  | disconnect =>
      rw [htype] at hpasses
      dsimp only at hpasses
      split at hpasses
      · rename_i hstate
        exact ⟨haddress, .inl hstate, hpasses⟩
      · cases hpasses
  | _ =>
      rw [htype] at hprotected
      cases hprotected

theorem passes_refused {address : Address} {datagram : Datagram}
    (hrefuses : c.refuses address datagram = true)
    (hprotected : datagram.header.type.isProtected = true) :
    c.passes address datagram = false := by
  by_contra hpasses
  rw [Bool.not_eq_false] at hpasses
  unfold passes at hpasses
  simp only [Bool.and_eq_true, decide_eq_true_eq] at hpasses
  obtain ⟨⟨⟨-, hrunning⟩, hlength⟩, hvalid⟩ := hpasses
  cases hpeer : c.peer with
  | none =>
      rw [hpeer] at hvalid
      cases hvalid
  | some peer =>
      rw [hpeer] at hvalid
      obtain ⟨haddress, hstate, haccepted⟩ := validate_protected hprotected hvalid
      have hrejects : peer.replayProtector.refuses datagram.header.sequence = true := by
        unfold refuses at hrefuses
        rcases hstate with hstate | ⟨htype, hstate⟩
        · simpa [hprotected, hrunning, hlength, hpeer, haddress, hstate] using hrefuses
        · simpa [PacketType.isProtected, hrunning, hlength, hpeer, haddress, htype, hstate]
            using hrefuses
      rw [show (peer.protectReplay datagram.header.sequence).2 = false from
        ReplayProtector.protectReplay_refused hrejects] at haccepted
      cases haccepted

theorem keep_of_filter {F : ReceiverFilter} (h : c.filter F = c) {id : ReceiverId} {r : Receiver}
    (hr : c.receivers id = some r) : F.keep id r = true := by
  have hfiltered : (c.receivers id).filter (F.keep id) = c.receivers id :=
    congrFun (congrArg Client.receivers h) id
  rw [hr] at hfiltered
  cases hkeep : F.keep id r with
  | true => rfl
  | false => simp [hkeep] at hfiltered

theorem filter_ticked (F : ReceiverFilter) (c : Client) :
    filter F { c with tick := c.tick + 1 } = { c.filter F with tick := c.tick + 1 } := rfl

theorem receiverComplete_failed {t : Client} (env : ClientEnv) {id : ReceiverId} {r : Receiver}
    (hr : t.receivers id = some r) (hnone : processEntry r.cryptoCtx r.datagram = none)
    (workerFailed : Bool) : receiverComplete env t id workerFailed =
      if r.canceled then t.setReceiver id none
      else (t.setReceiver id none).modifyPeer fun peer =>
        { peer with receivers := peer.receivers.erase id } := by
  unfold receiverComplete
  rw [hr]
  dsimp only
  rw [hnone, ite_self]
  split
  · rfl
  · unfold handleReceiverComplete
    split
    · rfl
    · split
      · rename_i heq
        cases heq
      · rfl

theorem filter_setReceiver_none {t : Client} {id : ReceiverId} (hid : I id = true) :
    (t.setReceiver id none).filter (genuine I) = t.filter (genuine I) := by
  unfold filter setReceiver
  congr 1
  funext id'
  by_cases heq : id' = id
  · subst heq
    cases t.receivers id' <;> simp [genuine, hid]
  · simp [Function.update_of_ne heq]

theorem filter_erase {t : Client} {id : ReceiverId} (hid : I id = true) :
    (t.modifyPeer fun peer => { peer with receivers := peer.receivers.erase id }).filter
      (genuine I) = t.filter (genuine I) := by
  unfold filter modifyPeer
  simp only [Option.map_map]
  congr 2
  funext peer
  have hsame : (peer.receivers.erase id).filter (genuine I).listed =
      peer.receivers.filter (genuine I).listed := by
    rw [← List.erase_filter]
    refine List.erase_of_not_mem ?_
    simp [genuine, hid]
  simp only [Function.comp, hsame]

theorem validate_blocked {peer : Peer} {address : Address} {header : Header}
    (h : header.type.isProtected = true → (validate peer address header).2 = false) :
    (validate peer address header).1 = peer := by
  unfold validate at h ⊢
  split
  · rfl
  rename_i haddress
  rw [if_neg haddress] at h
  have hprotect : ∀ {P : Prop} [Decidable P],
      (if P then peer.protectReplay header.sequence else (peer, false)).2 = false →
        (if P then peer.protectReplay header.sequence else (peer, false)).1 = peer := by
    intro P _ hrefused
    split
    · rename_i hP
      rw [if_pos hP] at hrefused
      exact Server.protectReplay_rejected hrefused
    · rfl
  cases htype : header.type with
  | keepAlive =>
      rw [htype] at h
      exact hprotect (h rfl)
  | payload =>
      rw [htype] at h
      exact hprotect (h rfl)
  | disconnect =>
      rw [htype] at h
      exact hprotect (h rfl)
  | denied => rfl
  | challenge => rfl
  | request => rfl
  | response => rfl

/-- What becomes of an injected datagram that does not pass replay protection: it gets a
receiver, or nothing happens. -/
theorem accept_blocked {t : Client} (env : ClientEnv) {address : Address} {datagram : Datagram}
    (hfaulted : t.faulted = false) (hpresent : t.state = .running → t.peer.isSome = true)
    (hblocked : datagram.header.type.isProtected = true → t.passes address datagram = false) :
    accept env t address datagram = t ∨
      ∃ peer, accept env t address datagram = submitReceiver env t peer datagram := by
  unfold accept
  split
  · exact .inl rfl
  rename_i hrunning
  rw [not_not] at hrunning
  split
  · exact .inl rfl
  rename_i hlength
  rw [not_not] at hlength
  cases hpeer : t.peer with
  | none =>
      have hsome := hpresent hrunning
      rw [hpeer] at hsome
      cases hsome
  | some peer =>
      have hsame : (validate peer address datagram.header).1 = peer := by
        refine validate_blocked fun hprotected => ?_
        have hpasses := hblocked hprotected
        unfold passes at hpasses
        simpa [hfaulted, hrunning, hlength, hpeer] using hpasses
      have hself : { t with peer := some peer } = t := by rw [← hpeer]
      dsimp only
      rw [hsame, hself]
      split
      · split
        · exact .inr ⟨peer, rfl⟩
        · exact .inl rfl
      · exact .inl rfl

theorem filter_submitted {t : Client} (env : ClientEnv) (peer : Peer) (datagram : Datagram)
    (htick : I t.tick = true) :
    (submitReceiver env t peer datagram).filter (genuine I) = t.filter (genuine I) := by
  unfold submitReceiver filter setReceiver modifyPeer
  dsimp only
  congr 1
  · simp only [Option.map_map]
    congr 1
    funext peer
    simp [genuine, List.filter_append, htick]
  · funext id
    by_cases hid : id = t.tick
    · subst hid
      cases t.receivers t.tick <;> simp [genuine, htick]
    · simp [Function.update_of_ne hid]

theorem filter_failing_submitted {t : Client} (env : ClientEnv) (peer : Peer) (datagram : Datagram)
    (ht : t.filter (failing I) = t)
    (hnone : processEntry (peer.cryptoCtx.getD .zero) datagram = none) :
    (submitReceiver env t peer datagram).filter (failing I) =
      submitReceiver env t peer datagram := by
  unfold submitReceiver
  dsimp only
  rw [filter_modifyPeer, filter_setReceiver, ht]
  · rintro r hr
    cases hr
    simp [failing, hnone]
  · exact fun peer => by simp [failing]

theorem step_eq (hfaulted : c.faulted = false) (i : ClientInput) :
    step c i = handle i.env { c with tick := c.tick + 1 } i.event :=
  if_neg (ne_true_of_eq_false hfaulted)

theorem skip_eq (hfaulted : c.faulted = false) : c.skip = { c with tick := c.tick + 1 } :=
  if_neg (ne_true_of_eq_false hfaulted)

theorem passing_filter (F : ReceiverFilter) (i : ClientInput) :
    (c.filter F).passing i = c.passing i := by
  have hpasses : ∀ address datagram,
      (c.filter F).passes address datagram = c.passes address datagram := by
    intro address datagram
    unfold passes
    cases hpeer : c.peer with
    | none => simp [filter, hpeer]
    | some peer =>
        simp only [filter, hpeer, Option.map_some, Option.any_some]
        rw [validate_receivers]
  unfold passing
  split
  · rw [hpasses]
  · rfl

theorem Hides.present_step (h : Hides I c d) (hfaulted : c.faulted = false) (i : ClientInput) :
    (step c i).faulted = false → (step c i).state = .running → (step c i).peer.isSome = true := by
  intro hf hs
  obtain ⟨hf', hs', hpeer⟩ := (stays_step hfaulted i).peer hf hs
  exact hpeer (h.present hf' hs')

theorem step_absent (c : Client) (env : ClientEnv) {id : ReceiverId} (hid : I id = true)
    (workerFailed : Bool) :
    step (c.filter (genuine I)) ⟨env, .receiverComplete id workerFailed⟩ =
      (c.filter (genuine I)).skip := by
  have hreceiver : (c.filter (genuine I)).receivers id = none := by
    change (c.receivers id).filter ((genuine I).keep id) = none
    cases c.receivers id <;> simp [genuine, hid]
  unfold step skip
  split
  · rfl
  · change receiverComplete env _ id workerFailed = _
    unfold receiverComplete
    dsimp only
    rw [hreceiver]

theorem Hides.step_genuine (h : Hides I c d) (hfaulted : c.faulted = false)
    (htick : I (c.tick + 1) = false) (i : ClientInput) : Hides I (step c i) (step d i) := by
  have hfailing : (step c i).filter (failing I) = step c i := by
    rw [step_filter, h.fails]
    unfold Keeps
    split
    · exact fun r => by simp [failing, htick]
    · exact fun r hr => keep_of_filter h.fails hr
    · trivial
  refine ⟨?_, hfailing, h.present_step hfaulted i⟩
  rw [← h.same]
  by_cases hkeeps : Keeps (genuine I) c i
  · exact step_filter (genuine I) c i hkeeps
  obtain ⟨env, event⟩ := i
  cases event with
  | receiverComplete id workerFailed =>
      have hid : I id = true := by
        by_contra hid
        rw [Bool.not_eq_true] at hid
        exact hkeeps fun r _ => by simp [genuine, hid]
      rw [step_absent c env hid, skip_eq (c := c.filter (genuine I)) hfaulted, step_eq hfaulted]
      change (receiverComplete env { c with tick := c.tick + 1 } id workerFailed).filter _ = _
      cases hr : c.receivers id with
      | none =>
          unfold receiverComplete
          dsimp only
          rw [hr]
          rfl
      | some r =>
          have hnone : processEntry r.cryptoCtx r.datagram = none := by
            simpa [failing, hid] using keep_of_filter h.fails hr
          rw [receiverComplete_failed (t := { c with tick := c.tick + 1 }) env hr hnone]
          split
          · exact filter_setReceiver_none hid
          · rw [filter_erase hid]
            exact filter_setReceiver_none hid
  | accept address datagram => exact absurd (fun r => by simp [genuine, htick]) hkeeps
  | senderComplete id => exact absurd trivial hkeeps
  | send views => exact absurd trivial hkeeps
  | disconnectPeer => exact absurd trivial hkeeps
  | triggerTimer name => exact absurd trivial hkeeps
  | triggered name => exact absurd trivial hkeeps
  | timeoutTimer => exact absurd trivial hkeeps
  | timedOut => exact absurd trivial hkeeps
  | stop => exact absurd trivial hkeeps
  | stopDeferred => exact absurd trivial hkeeps

theorem Hides.step_injected (h : Hides I c d) (hfaulted : c.faulted = false)
    (htick : I (c.tick + 1) = true) (env : ClientEnv) (address : Address) (datagram : Datagram)
    (hfails : ∀ r, (step c ⟨env, .accept address datagram⟩).receivers (c.tick + 1) = some r →
      processEntry r.cryptoCtx r.datagram = none)
    (hblocked : datagram.header.type.isProtected = true → c.passes address datagram = false) :
    Hides I (step c ⟨env, .accept address datagram⟩) d.skip := by
  have hpresent := h.present_step hfaulted ⟨env, .accept address datagram⟩
  have hskip : d.skip = filter (genuine I) { c with tick := c.tick + 1 } := by
    rw [← h.same]
    exact skip_eq (c := c.filter (genuine I)) hfaulted
  have hfailing : filter (failing I) { c with tick := c.tick + 1 } =
      { c with tick := c.tick + 1 } := by
    rw [filter_ticked, h.fails]
  rw [hskip]
  rw [step_eq hfaulted] at hfails hpresent ⊢
  change ∀ r, (accept env { c with tick := c.tick + 1 } address datagram).receivers _ = _ → _
    at hfails
  change Hides I (accept env { c with tick := c.tick + 1 } address datagram) _
  rcases accept_blocked (t := { c with tick := c.tick + 1 }) env hfaulted (h.present hfaulted)
    hblocked with hsame | ⟨peer, hsubmitted⟩
  · refine ⟨?_, ?_, hpresent⟩
    · rw [hsame]
    · rw [hsame]
      exact hfailing
  · have hnone : processEntry (peer.cryptoCtx.getD .zero) datagram = none := by
      refine hfails ⟨some peerName, peer.cryptoCtx.getD .zero, datagram, env.hrtime, false⟩ ?_
      rw [hsubmitted]
      simp [submitReceiver, modifyPeer, setReceiver]
    refine ⟨?_, ?_, hpresent⟩
    · rw [hsubmitted]
      exact filter_submitted env peer datagram htick
    · rw [hsubmitted]
      exact filter_failing_submitted env peer datagram hfailing hnone

theorem Hides.idle (h : Hides I c d) {e : Marked ClientInput} (he : handlesInjected I e = true) :
    (withoutInjected d e).1.peer = d.peer := by
  have hskip : d.skip.peer = d.peer := by
    unfold skip
    split <;> rfl
  obtain ⟨injected, env, event⟩ := e
  cases injected with
  | true => exact hskip
  | false =>
      cases event with
      | receiverComplete id workerFailed =>
          obtain rfl := h.same
          have hnothing := step_absent c env (I := I) he workerFailed
          change (step _ _).peer = _
          rw [hnothing]
          exact hskip
      | _ => cases he

theorem Hides.step (h : Hides I c d) {e : Marked ClientInput}
    (htick : c.faulted = false → I (c.tick + 1) = e.injected) (hforged : c.forged e = true)
    (hharmless : c.harmless e = true) :
    Hides I (withInjected c e).1 (withoutInjected d e).1 ∧
      (withInjected c e).2 = (withoutInjected d e).2 := by
  have hpassing : ∀ i, d.passing i = c.passing i := by
    intro i
    rw [← h.same]
    exact passing_filter _ i
  cases hfaulted : c.faulted with
  | true =>
      have hfaulted' : d.faulted = true := by
        rw [← h.same]
        exact hfaulted
      have hstays : Client.step c e.input = c := if_pos hfaulted
      have hstays' : (withoutInjected d e).1 = d := by
        unfold withoutInjected
        split
        · exact if_pos hfaulted'
        · exact if_pos hfaulted'
      refine ⟨?_, ?_⟩
      · rw [hstays']
        change Hides I (Client.step c e.input) d
        rw [hstays]
        exact h
      · unfold withInjected withoutInjected
        split
        · rfl
        · exact (hpassing e.input).symm
  | false =>
      obtain ⟨injected, env, event⟩ := e
      cases injected with
      | false => exact ⟨h.step_genuine hfaulted (htick hfaulted) _, (hpassing _).symm⟩
      | true =>
          cases event with
          | accept address datagram =>
              refine ⟨h.step_injected hfaulted (htick hfaulted) env address datagram ?_ ?_, rfl⟩
              · intro r hr
                have hfails : ((Client.step c ⟨env, .accept address datagram⟩).receivers
                    (c.tick + 1)).all (fun r =>
                      (processEntry r.cryptoCtx r.datagram).isNone) = true := hforged
                rw [hr] at hfails
                exact Option.isNone_iff_eq_none.mp hfails
              · exact passes_refused hharmless
          | _ => cases hforged

theorem Hides.protector (h : Hides I c d) {e : Marked ClientInput}
    (hnext : Hides I (withInjected c e).1 (withoutInjected d e).1)
    (he : handlesInjected I e = true) :
    (Client.step c e.input).peer.map Peer.replayProtector = c.peer.map Peer.replayProtector := by
  have hfilter : ∀ {c d : Client}, Hides I c d →
      d.peer.map Peer.replayProtector = c.peer.map Peer.replayProtector := by
    intro c d h
    rw [← h.same]
    unfold filter
    simp only [Option.map_map]
    rfl
  exact (hfilter hnext).symm.trans ((congrArg _ (h.idle he)).trans (hfilter h))

theorem hides_start (token : ClientToken) (address : Address) (payloadCapacity : ℕ)
    (hrtime leftover : UInt64) :
    Hides I (start token address payloadCapacity hrtime leftover)
      (start token address payloadCapacity hrtime leftover) :=
  ⟨rfl, rfl, fun _ _ => rfl⟩

end Hides

end Client

end Protocol

end PomeloUdp
