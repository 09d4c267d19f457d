import PomeloUdp.Platform.Udp

/-!
# The default adapter

An adapter sends and receives through a socket of the platform. The kernel reads the memory of a
buffer until its send ends and writes to the memory of another one when a datagram comes in, so the
adapter has to hold a reference of the buffer meanwhile.

The functions follow `default.c`, for all the adapters of a platform. `pomelo_adapter_on_recv` is
called in the middle of `pomelo_adapter_recv_callback`, so the receiving is cut in two there
(`receive`, `receiveReturn`). `taken` and `given` are the buffers whose references the adapters took
and gave back, and `delivered` those that came up. No function reads them.
-/

namespace PomeloUdp

open Platform (UdpController)

/-- The adapters of a platform. -/
structure Adapters where
  udp : UdpController
  /-- `POMELO_ADAPTER_DEFAULT_NO_ENCRYPTION` -/
  noEncryption : Bool
  /-- `adapter->udp` -/
  sockets : ℕ → Option ℕ
  /-- The buffer of the datagram that is being delivered. -/
  receiving : Option ℕ
  /-- Whether a buffer was made out of a null pointer. -/
  fault : Bool
  nextBuffer : ℕ
  taken : List ℕ
  given : List ℕ
  delivered : List ℕ

/-- What happens to the adapters. -/
inductive AdapterEvent where
  /-- The platform starts its controller, or shuts it down. -/
  | startup
  | shutdown
  | listen (adapter : ℕ) (valid acquired attached receiving added : Bool)
  | connect (adapter : ℕ) (valid acquired attached receiving added : Bool)
  | stop (adapter : ℕ)
  | send (adapter buffer : ℕ) (encrypted valid acquired accepted : Bool)
  | sendDone (number : ℕ)
  | sendReturn
  | onClosed (socket : ℕ)
  /-- The loop reads the socket of an adapter; the answer of the buffer pool, and whether it has
  read a datagram with an address. -/
  | receive (adapter : ℕ) (acquired status : Bool)
  | receiveReturn
  deriving DecidableEq, Repr

namespace Adapters

/-- New adapters over a new controller. -/
def create (noEncryption : Bool) : Adapters where
  udp := UdpController.create
  noEncryption := noEncryption
  sockets := fun _ => none
  receiving := none
  fault := false
  nextBuffer := 0
  taken := []
  given := []
  delivered := []

/-- What `pomelo_adapter_listen` and `pomelo_adapter_connect` do with the answer of the platform. -/
def attach (s : Adapters) (adapter : ℕ) (answer : UdpController × Option ℕ) : Adapters :=
  { s with udp := answer.1, sockets := Function.update s.sockets adapter answer.2 }

/-- `pomelo_adapter_listen`. -/
def listen (s : Adapters) (adapter : ℕ) (valid acquired attached receiving added : Bool) :
    Adapters :=
  if (s.sockets adapter).isSome then s
  else s.attach adapter (s.udp.bind valid acquired attached receiving added)

/-- `pomelo_adapter_connect`. -/
def connect (s : Adapters) (adapter : ℕ) (valid acquired attached receiving added : Bool) :
    Adapters :=
  if (s.sockets adapter).isSome then s
  else s.attach adapter (s.udp.connect valid acquired attached receiving added)

/-- `pomelo_adapter_stop`. -/
def stop (s : Adapters) (adapter : ℕ) : Adapters :=
  match s.sockets adapter with
  | none => s
  | some socket =>
      { s with udp := s.udp.stop socket, sockets := Function.update s.sockets adapter none }

/-- `pomelo_adapter_send`, and whether it answers zero. -/
def send (s : Adapters) (adapter buffer : ℕ) (encrypted valid acquired accepted : Bool) :
    Adapters × Bool :=
  match s.sockets adapter with
  | none => (s, false)
  | some socket =>
      if encrypted == s.noEncryption then (s, false)
      else
        let answer := s.udp.send socket buffer valid acquired accepted
        let referenced := { s with udp := answer.1, taken := s.taken ++ [buffer] }
        if !answer.2 then ({ referenced with given := s.given ++ [buffer] }, false)
        else (referenced, true)

/-- `pomelo_platform_send_done` with `process_send_complete` as the callback. -/
def sendDone (s : Adapters) (number : ℕ) : Adapters :=
  if s.receiving.isSome then s
  else
    let answer := s.udp.sendDone number
    { s with udp := answer.1, given := s.given ++ answer.2.toList }

/-- `pomelo_adapter_alloc_callback`, and `pomelo_adapter_recv_callback` up to the call of
`pomelo_adapter_on_recv`. The loop calls both for a socket that is not closing. -/
def receive (s : Adapters) (adapter : ℕ) (acquired status : Bool) : Adapters :=
  if s.receiving.isSome || s.udp.completing then s
  else
    match s.sockets adapter with
    | none => s
    | some _ =>
        -- without a buffer the receiving callback gets a null pointer as its data
        if !acquired then { s with fault := true }
        else
          { s with
            nextBuffer := s.nextBuffer + 1
            receiving := some s.nextBuffer
            taken := s.taken ++ [s.nextBuffer]
            delivered := if status then s.delivered ++ [s.nextBuffer] else s.delivered }

/-- The end of `pomelo_adapter_recv_callback`. -/
def receiveReturn (s : Adapters) : Adapters :=
  match s.receiving with
  | none => s
  | some buffer => { s with receiving := none, given := s.given ++ [buffer] }

/-- A step of the loop for the controller alone. -/
def loop (s : Adapters) (next : UdpController) : Adapters :=
  if s.receiving.isSome then s else { s with udp := next }

/-- One step. -/
def step (s : Adapters) : AdapterEvent → Adapters
  | .startup => { s with udp := s.udp.startup }
  | .shutdown => s.loop s.udp.shutdown.1
  | .listen adapter valid acquired attached receiving added =>
      s.listen adapter valid acquired attached receiving added
  | .connect adapter valid acquired attached receiving added =>
      s.connect adapter valid acquired attached receiving added
  | .stop adapter => s.stop adapter
  | .send adapter buffer encrypted valid acquired accepted =>
      (s.send adapter buffer encrypted valid acquired accepted).1
  | .sendDone number => s.sendDone number
  | .sendReturn => s.loop s.udp.sendReturn.1
  | .onClosed socket => s.loop (s.udp.onClosed socket).1
  | .receive adapter acquired status => s.receive adapter acquired status
  | .receiveReturn => s.receiveReturn

/-- The platform is started when nothing is in flight, and shut down when the adapters are
stopped. -/
def Proper (s : Adapters) : AdapterEvent → Prop
  | .startup => s.udp.sends = [] ∧ s.udp.completing = false
  | .shutdown => ∀ adapter, s.sockets adapter = none
  | _ => True

/-- The references that the adapters hold are those of the sends in flight and of the datagram
that is being delivered. Each adapter has an open socket of its own. -/
structure Sound (s : Adapters) : Prop where
  udp : UdpController.Sound s.udp
  held : s.taken.Perm (s.given ++ (s.udp.sends.map (·.data) ++ s.receiving.toList))
  isOpen : ∀ adapter socket, s.sockets adapter = some socket → s.udp.IsOpen socket
  own : ∀ adapter other socket, s.sockets adapter = some socket →
    s.sockets other = some socket → adapter = other

theorem sound_create (noEncryption : Bool) : Sound (create noEncryption) where
  udp := UdpController.sound_create
  held := List.Perm.refl _
  isOpen := by simp [create]
  own := by simp [create]

namespace Sound

variable {s : Adapters}

theorem of_udp (h : Sound s) {next : UdpController} (hnext : next.Sound)
    (hsends : next.sends = s.udp.sends)
    (hopen : ∀ adapter socket, s.sockets adapter = some socket → next.IsOpen socket) :
    Sound { s with udp := next } where
  udp := hnext
  held := by
    dsimp only
    rw [hsends]
    exact h.held
  isOpen := hopen
  own := h.own

theorem loop (h : Sound s) {next : UdpController} (hnext : next.Sound)
    (hsends : next.sends = s.udp.sends)
    (hopen : ∀ adapter socket, s.sockets adapter = some socket → next.IsOpen socket) :
    Sound (s.loop next) := by
  unfold Adapters.loop
  split
  · exact h
  · exact h.of_udp hnext hsends hopen

theorem attach (h : Sound s) (adapter : ℕ) (valid acquired attached receiving added : Bool) :
    Sound (s.attach adapter (s.udp.openSocket valid acquired attached receiving added)) := by
  have hudp := h.udp.openSocket valid acquired attached receiving added
  have hbefore : ∀ other socket, s.sockets other = some socket →
      (s.udp.openSocket valid acquired attached receiving added).1.IsOpen socket :=
    fun other socket hsocket => (h.isOpen other socket hsocket).openSocket h.udp _ _ _ _ _
  refine ⟨hudp, ?_, fun other socket hsocket => ?_, fun first second socket hfirst hsecond => ?_⟩
  · change s.taken.Perm (s.given ++ ((s.udp.openSocket _ _ _ _ _).1.sends.map _ ++ _))
    rw [UdpController.sends_openSocket]
    exact h.held
  · dsimp only [Adapters.attach] at hsocket
    by_cases heq : other = adapter
    · rw [heq, Function.update_self] at hsocket
      exact (UdpController.isOpen_openSocket hsocket).2
    · rw [Function.update_of_ne heq] at hsocket
      exact hbefore other socket hsocket
  · -- the new socket is none of those before
    have hnew : ∀ other, other ≠ adapter → s.sockets other = some socket →
        (s.udp.openSocket valid acquired attached receiving added).2 ≠ some socket := by
      intro other _ hother hanswer
      have hlt := (h.isOpen other socket hother).lt h.udp
      rw [(UdpController.isOpen_openSocket hanswer).1] at hlt
      exact Nat.lt_irrefl _ hlt
    simp only [Adapters.attach, Function.update_apply] at hfirst hsecond
    split_ifs at hfirst hsecond with hf hs hs
    · rw [hf, hs]
    · exact absurd hfirst (hnew second hs hsecond)
    · exact absurd hsecond (hnew first hf hfirst)
    · exact h.own first second socket hfirst hsecond

theorem stop (h : Sound s) (adapter : ℕ) : Sound (s.stop adapter) := by
  unfold Adapters.stop
  split
  · exact h
  next socket hsocket =>
  have hopen := h.isOpen adapter socket hsocket
  have hclose := hopen.stop_eq
  refine ⟨?_, ?_, fun other found hfound => ?_, fun first second found hfirst hsecond => ?_⟩
  · rw [hclose]
    exact h.udp.close socket
  · dsimp only
    rw [hclose]
    exact h.held
  · simp only [Function.update_apply] at hfound
    split_ifs at hfound with heq
    dsimp only
    rw [hclose]
    refine (h.isOpen other found hfound).close fun hsame => heq ?_
    exact h.own other adapter found hfound (hsame ▸ hsocket)
  · simp only [Function.update_apply] at hfirst hsecond
    split_ifs at hfirst hsecond
    exact h.own first second found hfirst hsecond

theorem send (h : Sound s) (adapter buffer : ℕ) (encrypted valid acquired accepted : Bool) :
    Sound (s.send adapter buffer encrypted valid acquired accepted).1 := by
  unfold Adapters.send
  split
  · exact h
  next socket hsocket =>
  split
  · exact h
  have hopen := h.isOpen adapter socket hsocket
  have hudp := h.udp.send hopen buffer valid acquired accepted
  have hstill : ∀ other found, s.sockets other = some found →
      (s.udp.send socket buffer valid acquired accepted).1.IsOpen found := by
    intro other found hfound
    rw [UdpController.IsOpen, UdpController.sockets_send]
    exact h.isOpen other found hfound
  dsimp only
  split
  next hrefused =>
    refine ⟨hudp, ?_, hstill, h.own⟩
    dsimp only
    rw [UdpController.sends_send_of_refused (by simpa using hrefused), List.append_assoc]
    exact (h.held.append_right [buffer]).trans
      (by rw [List.append_assoc]; exact List.perm_append_comm.append_left s.given)
  next haccepted =>
    refine ⟨hudp, ?_, hstill, h.own⟩
    dsimp only
    rw [UdpController.data_send (by simpa using haccepted), List.append_assoc]
    refine (h.held.append_right [buffer]).trans ?_
    rw [List.append_assoc, List.append_assoc]
    exact (List.perm_append_comm.append_left _).append_left s.given

theorem sendDone (h : Sound s) (number : ℕ) : Sound (s.sendDone number) := by
  unfold Adapters.sendDone
  split
  · exact h
  refine ⟨h.udp.sendDone number, ?_, fun adapter socket hsocket => ?_, h.own⟩
  · dsimp only
    refine h.held.trans ?_
    rw [List.append_assoc, ← List.append_assoc (Option.toList _)]
    exact ((h.udp.data_sendDone number).append_right _).append_left s.given
  · dsimp only
    rw [UdpController.IsOpen, UdpController.sockets_sendDone]
    exact h.isOpen adapter socket hsocket

theorem receive (h : Sound s) (adapter : ℕ) (acquired status : Bool) :
    Sound (s.receive adapter acquired status) := by
  unfold Adapters.receive
  split
  · exact h
  next hidle =>
  split
  · exact h
  split
  · exact ⟨h.udp, h.held, h.isOpen, h.own⟩
  have hnone : s.receiving = none := by
    cases hreceiving : s.receiving with
    | none => rfl
    | some buffer => simp [hreceiving] at hidle
  refine ⟨h.udp, ?_, h.isOpen, h.own⟩
  have hheld := h.held.append_right [s.nextBuffer]
  rw [hnone, Option.toList_none, List.append_nil, List.append_assoc] at hheld
  exact hheld

theorem receiveReturn (h : Sound s) : Sound s.receiveReturn := by
  unfold Adapters.receiveReturn
  split
  · exact h
  next buffer hbuffer =>
  refine ⟨h.udp, ?_, h.isOpen, h.own⟩
  have hheld := h.held
  rw [hbuffer, Option.toList_some] at hheld
  dsimp only
  rw [Option.toList_none, List.append_nil, List.append_assoc]
  exact hheld.trans (List.perm_append_comm.append_left s.given)

theorem step (h : Sound s) (event : AdapterEvent) (hproper : Proper s event) :
    Sound (s.step event) := by
  cases event with
  | startup =>
      exact h.of_udp (h.udp.step .startup hproper) rfl h.isOpen
  | shutdown =>
      refine h.loop h.udp.shutdown (UdpController.sends_shutdown _) fun adapter socket hsocket => ?_
      rw [hproper adapter] at hsocket
      cases hsocket
  | listen adapter valid acquired attached receiving added =>
      change Sound (s.listen adapter valid acquired attached receiving added)
      unfold Adapters.listen
      split
      · exact h
      · exact h.attach adapter valid acquired attached receiving added
  | connect adapter valid acquired attached receiving added =>
      change Sound (s.connect adapter valid acquired attached receiving added)
      unfold Adapters.connect
      split
      · exact h
      · exact h.attach adapter valid acquired attached receiving added
  | stop adapter => exact h.stop adapter
  | send adapter buffer encrypted valid acquired accepted =>
      exact h.send adapter buffer encrypted valid acquired accepted
  | sendDone number => exact h.sendDone number
  | sendReturn =>
      refine h.loop h.udp.sendReturn (UdpController.sends_sendReturn _) fun adapter socket hs => ?_
      rw [UdpController.IsOpen, UdpController.sockets_sendReturn]
      exact h.isOpen adapter socket hs
  | onClosed socket =>
      exact h.loop (h.udp.onClosed socket) (UdpController.sends_onClosed _ _)
        fun adapter found hfound => (h.isOpen adapter found hfound).onClosed h.udp socket
  | receive adapter acquired status => exact h.receive adapter acquired status
  | receiveReturn => exact h.receiveReturn

end Sound

/-- Whatever the order of the calls and of what the loop does, the references of a buffer that the
adapters have taken are given back, except one for each send of it in flight, and one while it is
delivered. The adapters never use a socket that is closing or released, so that the only faults of
the controller are the closes of sockets that could not be set up. -/
theorem references_run (noEncryption : Bool) {es : List AdapterEvent}
    (hes : Machine.Along step Proper (create noEncryption) es) :
    let s := Machine.run step (create noEncryption) es
    (∀ buffer, s.taken.count buffer = s.given.count buffer +
        (s.udp.sends.countP (·.data = buffer) + s.receiving.toList.count buffer)) ∧
      (∀ adapter socket, s.sockets adapter = some socket → s.udp.IsOpen socket) ∧
      (s.udp.fault = true ↔ ∃ socket ∈ s.udp.closed, socket.listed = false) := by
  have h : Sound (Machine.run step (create noEncryption) es) :=
    Machine.invariant_run (fun _ event hs hproper => hs.step event hproper)
      (sound_create noEncryption) hes
  refine ⟨fun buffer => ?_, h.isOpen, h.udp.fault⟩
  rw [h.held.count_eq, List.count_append, List.count_append]
  have hdata : ∀ sends : List Platform.UdpSend, (sends.map (·.data)).count buffer =
      sends.countP (·.data = buffer) := fun sends => by
    rw [List.count_eq_countP, List.countP_map]
    exact List.countP_congr fun send _ => by simp
  rw [hdata]

/-- A datagram that is sent back while it is delivered, by an adapter that stops. -/
theorem references_run_sample :
    let es : List AdapterEvent :=
      [.startup, .listen 4 true true true true true, .receive 4 true true,
        .send 4 0 true true true true, .receiveReturn, .stop 4, .sendDone 0, .sendReturn,
        .onClosed 0]
    let s := Machine.run step (create false) es
    (∀ buffer, s.taken.count buffer = s.given.count buffer +
        (s.udp.sends.countP (·.data = buffer) + s.receiving.toList.count buffer)) ∧
      (∀ adapter socket, s.sockets adapter = some socket → s.udp.IsOpen socket) ∧
      (s.udp.fault = true ↔ ∃ socket ∈ s.udp.closed, socket.listed = false) :=
  references_run false ⟨⟨rfl, rfl⟩, trivial, trivial, trivial, trivial, trivial, trivial, trivial,
    trivial, trivial⟩

end Adapters

end PomeloUdp
