import Mathlib.Data.List.Induction
import PomeloUdp.Library.Ledger
import PomeloUdp.Library.Progress

/-!
# Sockets and sends

A send that `uv_udp_send` accepts is in flight until the loop calls `pomelo_platform_send_done`.
A socket is closed in two steps: `pomelo_platform_udp_close` begins it and the loop ends it with
`pomelo_platform_udp_on_closed`. The loop first ends the sends of a socket and then its close, so a
socket in memory is what the sends in flight point to.

The functions follow `udp.c`; each says as well whether it calls
`pomelo_platform_udp_controller_on_shutdown`. The callback of a send is called in the middle of
`pomelo_platform_send_done`, so the function is cut in two there (`sendDone`, `sendReturn`).
`closed`, `finished` and `refused` are the sockets whose close has ended, the sends whose callback
was called, and how many sends `uv_udp_send` refused. No function reads them.
-/

namespace PomeloUdp

namespace Platform

/-- `pomelo_platform_udp_t`. -/
structure UdpSocket where
  number : ℕ
  /-- Whether it has an entry in the list of the controller. -/
  listed : Bool
  closing : Bool
  deriving DecidableEq, Repr

/-- `pomelo_platform_send_t`, with its callback data. -/
structure UdpSend where
  number : ℕ
  socket : ℕ
  data : ℕ
  deriving DecidableEq, Repr

/-- `pomelo_platform_udp_controller_t`, with the handles and requests of the loop. -/
structure UdpController where
  running : Bool
  sockets : List UdpSocket
  sends : List UdpSend
  /-- The elements of the send pool that are in use. -/
  sendPool : ℕ
  sendingRequests : ℕ
  /-- Whether the loop is in the callback of a send. -/
  completing : Bool
  /-- Whether a socket was used after its release or removed without an entry. -/
  fault : Bool
  nextSocket : ℕ
  nextSend : ℕ
  closed : List UdpSocket
  finished : List ℕ
  refused : ℕ
  deriving DecidableEq, Repr

/-- What happens to a controller. -/
inductive UdpEvent where
  | startup
  | shutdown
  /-- A bind; the answers of the address conversion, the socket pool, `uv_udp_bind`,
  `uv_udp_recv_start` and the list. -/
  | bind (valid acquired attached receiving added : Bool)
  /-- A connect, with the answer of `uv_udp_connect`. -/
  | connect (valid acquired attached receiving added : Bool)
  | stop (socket : ℕ)
  /-- A send; the answers of the address conversion, the send pool and `uv_udp_send`. -/
  | send (socket data : ℕ) (valid acquired accepted : Bool)
  | sendDone (number : ℕ)
  /-- The callback of a send returns. -/
  | sendReturn
  /-- The loop calls `pomelo_platform_udp_on_closed`. -/
  | onClosed (socket : ℕ)
  deriving DecidableEq, Repr

namespace UdpController

/-- A new controller. -/
def create : UdpController where
  running := false
  sockets := []
  sends := []
  sendPool := 0
  sendingRequests := 0
  completing := false
  fault := false
  nextSocket := 0
  nextSend := 0
  closed := []
  finished := []
  refused := 0

/-- `controller->sockets->size`. -/
def size (s : UdpController) : ℕ := s.sockets.countP UdpSocket.listed

/-- Whether `pomelo_platform_udp_controller_check_shutdown` finds the controller shut down. -/
def checkShutdown (s : UdpController) : Bool :=
  !s.running && s.size == 0 && s.sendingRequests == 0

/-- `pomelo_platform_udp_controller_startup`. -/
def startup (s : UdpController) : UdpController :=
  { s with running := true, sendingRequests := 0 }

/-- `pomelo_platform_udp_close`. -/
def close (s : UdpController) (socket : ℕ) : UdpController :=
  { s with
    sockets := s.sockets.map fun other =>
      if other.number = socket then { other with closing := true } else other }

/-- `pomelo_platform_udp_controller_shutdown`. -/
def shutdown (s : UdpController) : UdpController × Bool :=
  if !s.running then (s, false)
  else
    let stopped := ((s.sockets.filter UdpSocket.listed).map UdpSocket.number).foldl close
      { s with running := false }
    (stopped, stopped.checkShutdown)

/-- What `pomelo_platform_uv_udp_bind` and `pomelo_platform_uv_udp_connect` do alike: a socket
that cannot be set up is closed without an entry. -/
def openSocket (s : UdpController) (valid acquired attached receiving added : Bool) :
    UdpController × Option ℕ :=
  if !valid then (s, none)
  else if !acquired then (s, none)
  else
    let number := s.nextSocket
    let add (listed : Bool) : UdpController :=
      { s with sockets := s.sockets ++ [⟨number, listed, false⟩], nextSocket := number + 1 }
    if !attached then ((add false).close number, none)
    else if !receiving then ((add false).close number, none)
    else if !added then ((add false).close number, none)
    else (add true, some number)

/-- `pomelo_platform_uv_udp_bind`. -/
def bind (s : UdpController) (valid acquired attached receiving added : Bool) :
    UdpController × Option ℕ :=
  s.openSocket valid acquired attached receiving added

/-- `pomelo_platform_uv_udp_connect`. -/
def connect (s : UdpController) (valid acquired attached receiving added : Bool) :
    UdpController × Option ℕ :=
  s.openSocket valid acquired attached receiving added

/-- `pomelo_platform_uv_udp_stop`. -/
def stop (s : UdpController) (socket : ℕ) : UdpController :=
  if s.sockets.any fun other => other.number = socket then s.close socket
  else { s with fault := true }

/-- `pomelo_platform_uv_udp_send`, and whether it answers zero. -/
def send (s : UdpController) (socket data : ℕ) (valid acquired accepted : Bool) :
    UdpController × Bool :=
  if !s.running then (s, false)
  else if !valid then (s, false)
  else if !acquired then (s, false)
  else if !accepted then
    -- the element of the send pool is not released
    ({ s with sendPool := s.sendPool + 1, refused := s.refused + 1 }, false)
  else
    ({ s with
        sendPool := s.sendPool + 1
        sends := s.sends ++ [⟨s.nextSend, socket, data⟩]
        nextSend := s.nextSend + 1
        sendingRequests := s.sendingRequests + 1 }, true)

/-- `pomelo_platform_send_done` up to the callback, and the data for it. -/
def sendDone (s : UdpController) (number : ℕ) : UdpController × Option ℕ :=
  if s.completing then (s, none)
  else
    match s.sends.find? fun send => send.number = number with
    | none => (s, none)
    | some send =>
        ({ s with
            sends := s.sends.filter fun other => other.number ≠ number
            sendPool := s.sendPool - 1
            completing := true
            fault := s.fault || !s.sockets.any fun socket => socket.number = send.socket
            finished := s.finished ++ [number] }, some send.data)

/-- `pomelo_platform_send_done` after the callback. -/
def sendReturn (s : UdpController) : UdpController × Bool :=
  if !s.completing then (s, false)
  else
    let returned := { s with completing := false, sendingRequests := s.sendingRequests - 1 }
    (returned, returned.checkShutdown)

/-- `pomelo_platform_udp_on_closed`, which the loop calls for a socket that is closing once its
sends have ended. -/
def onClosed (s : UdpController) (number : ℕ) : UdpController × Bool :=
  if s.completing then (s, false)
  else
    match s.sockets.find? fun socket => socket.number = number with
    | none => (s, false)
    | some socket =>
        if !socket.closing then (s, false)
        else if s.sends.any fun send => send.socket = number then (s, false)
        else
          let closed :=
            { s with
              sockets := s.sockets.filter fun other => other.number ≠ number
              fault := s.fault || !socket.listed
              closed := s.closed ++ [socket] }
          (closed, closed.checkShutdown)

/-- One step, and whether the controller is completely shut down. -/
def stepShutdown (s : UdpController) : UdpEvent → UdpController × Bool
  | .startup => (s.startup, false)
  | .shutdown => s.shutdown
  | .bind valid acquired attached receiving added =>
      ((s.bind valid acquired attached receiving added).1, false)
  | .connect valid acquired attached receiving added =>
      ((s.connect valid acquired attached receiving added).1, false)
  | .stop socket => (s.stop socket, false)
  | .send socket data valid acquired accepted =>
      ((s.send socket data valid acquired accepted).1, false)
  | .sendDone number => ((s.sendDone number).1, false)
  | .sendReturn => s.sendReturn
  | .onClosed socket => s.onClosed socket

/-- One step. -/
def step (s : UdpController) (event : UdpEvent) : UdpController := (s.stepShutdown event).1

/-- The socket is one that a bind or a connect has returned and that was not closed since. -/
def IsOpen (s : UdpController) (number : ℕ) : Prop :=
  ∃ socket ∈ s.sockets, socket.number = number ∧ socket.listed = true ∧ socket.closing = false

instance decidableIsOpen (s : UdpController) (number : ℕ) : Decidable (s.IsOpen number) :=
  inferInstanceAs (Decidable (∃ socket ∈ s.sockets, socket.number = number ∧ _))

/-- The caller starts the controller only when nothing is in flight, and passes only open sockets
to it. -/
def Proper (s : UdpController) : UdpEvent → Prop
  | .startup => s.sends = [] ∧ s.completing = false
  | .stop socket => s.IsOpen socket
  | .send socket _ _ _ _ => s.IsOpen socket
  | _ => True

instance decidableProper (s : UdpController) (event : UdpEvent) : Decidable (Proper s event) := by
  unfold Proper
  split <;> infer_instance

/-- Every send is in flight or has ended, once, and the counters count the ones in flight. The
socket of a send in flight is in memory. A fault comes from a socket without an entry. -/
structure Sound (s : UdpController) : Prop where
  sends : Ledger.Balanced (s.sends.map UdpSend.number) s.finished s.nextSend
  sockets : Ledger.Balanced (s.sockets.map UdpSocket.number) (s.closed.map UdpSocket.number)
    s.nextSocket
  counter : s.sendingRequests = s.sends.length + if s.completing then 1 else 0
  pool : s.sendPool = s.sends.length + s.refused
  alive : ∀ send ∈ s.sends, ∃ socket ∈ s.sockets, socket.number = send.socket
  unlisted : ∀ socket ∈ s.sockets, socket.listed = false → socket.closing = true
  fault : s.fault = true ↔ ∃ socket ∈ s.closed, socket.listed = false

theorem sound_create : Sound create where
  sends := Ledger.Balanced.nil
  sockets := Ledger.Balanced.nil
  counter := rfl
  pool := rfl
  alive := by simp [create]
  unlisted := by simp [create]
  fault := by simp [create]

theorem mem_close {s : UdpController} {number : ℕ} {socket : UdpSocket}
    (hsocket : socket ∈ (s.close number).sockets) :
    ∃ before ∈ s.sockets, socket.number = before.number ∧ socket.listed = before.listed ∧
      (before.closing = true ∨ before.number = number ↔ socket.closing = true) := by
  obtain ⟨before, hbefore, rfl⟩ := List.mem_map.mp hsocket
  refine ⟨before, hbefore, ?_⟩
  split
  next heq => exact ⟨rfl, rfl, by simp [heq]⟩
  next hne => exact ⟨rfl, rfl, by simp [hne]⟩

theorem numbers_close (s : UdpController) (number : ℕ) :
    (s.close number).sockets.map UdpSocket.number = s.sockets.map UdpSocket.number := by
  rw [close, List.map_map]
  refine List.map_congr_left fun other _ => ?_
  rw [Function.comp_apply]
  split <;> rfl

namespace Sound

variable {s : UdpController}

theorem close (h : Sound s) (number : ℕ) : Sound (s.close number) := by
  refine ⟨h.sends, ?_, h.counter, h.pool, fun send hsend => ?_, fun socket hsocket hlisted => ?_,
    h.fault⟩
  · rw [numbers_close]
    exact h.sockets
  · obtain ⟨socket, hsocket, hnumber⟩ := h.alive send hsend
    have hmem : send.socket ∈ (s.close number).sockets.map UdpSocket.number := by
      rw [numbers_close, ← hnumber]
      exact List.mem_map_of_mem hsocket
    exact List.mem_map.mp hmem
  · obtain ⟨before, hbefore, -, hsame, hclosing⟩ := mem_close hsocket
    exact hclosing.mp (.inl (h.unlisted before hbefore (hsame ▸ hlisted)))

theorem foldl_close (h : Sound s) (numbers : List ℕ) :
    Sound (numbers.foldl UdpController.close s) := by
  induction numbers generalizing s with
  | nil => exact h
  | cons number numbers ih => exact ih (h.close number)

theorem shutdown (h : Sound s) : Sound s.shutdown.1 := by
  unfold UdpController.shutdown
  have hstopped : Sound { s with running := false } :=
    ⟨h.sends, h.sockets, h.counter, h.pool, h.alive, h.unlisted, h.fault⟩
  split
  · exact h
  · exact hstopped.foldl_close _

theorem add (h : Sound s) (listed closing : Bool) (hclosing : listed = false → closing = true) :
    Sound { s with
      sockets := s.sockets ++ [⟨s.nextSocket, listed, closing⟩]
      nextSocket := s.nextSocket + 1 } := by
  refine ⟨h.sends, ?_, h.counter, h.pool, fun send hsend => ?_, fun socket hsocket hlisted => ?_,
    h.fault⟩
  · rw [List.map_append]
    exact h.sockets.issue
  · obtain ⟨socket, hsocket, hnumber⟩ := h.alive send hsend
    exact ⟨socket, List.mem_append_left _ hsocket, hnumber⟩
  · rcases List.mem_append.mp hsocket with hbefore | hlast
    · exact h.unlisted socket hbefore hlisted
    · obtain rfl := List.mem_singleton.mp hlast
      exact hclosing hlisted

theorem close_add (h : Sound s) :
    ({ s with
      sockets := s.sockets ++ [⟨s.nextSocket, false, false⟩]
      nextSocket := s.nextSocket + 1 } : UdpController).close s.nextSocket =
    { s with
      sockets := s.sockets ++ [⟨s.nextSocket, false, true⟩]
      nextSocket := s.nextSocket + 1 } := by
  have hold : s.sockets.map (fun other =>
      if other.number = s.nextSocket then { other with closing := true } else other) =
        s.sockets := by
    rw [List.map_congr_left (g := id) fun socket hsocket => ?_, List.map_id]
    have hlt := h.sockets.lt_of_pending (List.mem_map_of_mem hsocket)
    rw [if_neg (Nat.ne_of_lt hlt)]
    rfl
  rw [UdpController.close, List.map_append, hold]
  simp

theorem openSocket (h : Sound s) (valid acquired attached receiving added : Bool) :
    Sound (s.openSocket valid acquired attached receiving added).1 := by
  unfold UdpController.openSocket
  have hunlisted := h.add false true fun _ => rfl
  rw [← h.close_add] at hunlisted
  split
  · exact h
  split
  · exact h
  dsimp only
  split
  · exact hunlisted
  split
  · exact hunlisted
  split
  · exact hunlisted
  · exact h.add true false (by simp)

theorem send (h : Sound s) {socket : ℕ} (hopen : s.IsOpen socket) (data : ℕ)
    (valid acquired accepted : Bool) : Sound (s.send socket data valid acquired accepted).1 := by
  unfold UdpController.send
  split
  · exact h
  split
  · exact h
  split
  · exact h
  split
  · exact ⟨h.sends, h.sockets, h.counter, by simp only [h.pool]; omega, h.alive, h.unlisted,
      h.fault⟩
  · refine ⟨?_, h.sockets, ?_, ?_, fun send hsend => ?_, h.unlisted, h.fault⟩
    · rw [List.map_append]
      exact h.sends.issue
    · simp only [h.counter, List.length_append, List.length_singleton]
      omega
    · simp only [h.pool, List.length_append, List.length_singleton]
      omega
    · rcases List.mem_append.mp hsend with hbefore | hlast
      · exact h.alive send hbefore
      · obtain rfl := List.mem_singleton.mp hlast
        obtain ⟨socket, hsocket, hnumber, -⟩ := hopen
        exact ⟨socket, hsocket, hnumber⟩

theorem sendDone (h : Sound s) (number : ℕ) : Sound (s.sendDone number).1 := by
  unfold UdpController.sendDone
  split
  · exact h
  next hidle =>
  split
  · exact h
  next send hfind =>
  have hsend := List.mem_of_find?_eq_some hfind
  obtain rfl : send.number = number := by simpa using List.find?_some hfind
  have hlength := (Ledger.perm_cons_filter h.sends.nodup_pending hsend).length_eq
  rw [List.length_cons] at hlength
  obtain ⟨socket, hsocket, hnumber⟩ := h.alive send hsend
  have hany : (s.sockets.any fun socket => socket.number = send.socket) = true :=
    List.any_eq_true.mpr ⟨socket, hsocket, decide_eq_true hnumber⟩
  have hcounter := h.counter
  have hpool := h.pool
  rw [if_neg hidle] at hcounter
  refine ⟨?_, h.sockets, ?_, ?_, fun other hother => ?_, h.unlisted, ?_⟩
  · exact h.sends.settle_map hsend
  · simp only [if_true]
    omega
  · dsimp only
    omega
  · exact h.alive other (List.mem_filter.mp hother).1
  · rw [hany]
    simpa using h.fault

theorem data_sendDone (h : Sound s) (number : ℕ) :
    (s.sends.map UdpSend.data).Perm
      ((s.sendDone number).2.toList ++ (s.sendDone number).1.sends.map UdpSend.data) := by
  unfold UdpController.sendDone
  split
  · exact List.Perm.refl _
  split
  · exact List.Perm.refl _
  next send hfind =>
  have hsend := List.mem_of_find?_eq_some hfind
  obtain rfl : send.number = number := by simpa using List.find?_some hfind
  exact (Ledger.perm_cons_filter h.sends.nodup_pending hsend).map UdpSend.data

theorem sendReturn (h : Sound s) : Sound s.sendReturn.1 := by
  unfold UdpController.sendReturn
  split
  · exact h
  next hcompleting =>
  have hcounter := h.counter
  rw [if_pos (by simpa using hcompleting)] at hcounter
  refine ⟨h.sends, h.sockets, ?_, h.pool, h.alive, h.unlisted, h.fault⟩
  simp only [hcounter, Bool.false_eq_true, if_false]
  omega

theorem onClosed (h : Sound s) (number : ℕ) : Sound (s.onClosed number).1 := by
  unfold UdpController.onClosed
  split
  · exact h
  split
  · exact h
  next socket hfind =>
  have hsocket := List.mem_of_find?_eq_some hfind
  obtain rfl : socket.number = number := by simpa using List.find?_some hfind
  split
  · exact h
  split
  · exact h
  next hfree =>
  refine ⟨h.sends, ?_, h.counter, h.pool, fun send hsend => ?_, fun other hother => ?_, ?_⟩
  · dsimp only
    rw [List.map_append]
    exact h.sockets.settle_map hsocket
  · obtain ⟨other, hother, hnumber⟩ := h.alive send hsend
    refine ⟨other, List.mem_filter.mpr ⟨hother, decide_eq_true fun heq => hfree ?_⟩, hnumber⟩
    exact List.any_eq_true.mpr ⟨send, hsend, decide_eq_true (hnumber ▸ heq)⟩
  · exact h.unlisted other (List.mem_filter.mp hother).1
  · simp only [Bool.or_eq_true, h.fault, List.mem_append, List.mem_singleton, or_and_right,
      exists_or, exists_eq_left, Bool.not_eq_true']

theorem step (h : Sound s) (event : UdpEvent) (hproper : Proper s event) :
    Sound (s.step event) := by
  cases event with
  | startup =>
      obtain ⟨hsends, hidle⟩ := hproper
      exact ⟨h.sends, h.sockets, by simp [UdpController.step, stepShutdown, startup, hsends, hidle],
        h.pool, h.alive, h.unlisted, h.fault⟩
  | shutdown => exact h.shutdown
  | bind valid acquired attached receiving added =>
      exact h.openSocket valid acquired attached receiving added
  | connect valid acquired attached receiving added =>
      exact h.openSocket valid acquired attached receiving added
  | stop socket =>
      obtain ⟨found, hfound, hnumber, -⟩ := hproper
      have hany : (s.sockets.any fun other => other.number = socket) = true :=
        List.any_eq_true.mpr ⟨found, hfound, decide_eq_true hnumber⟩
      change Sound (s.stop socket)
      rw [UdpController.stop, if_pos hany]
      exact h.close socket
  | send socket data valid acquired accepted =>
      exact h.send hproper data valid acquired accepted
  | sendDone number => exact h.sendDone number
  | sendReturn => exact h.sendReturn
  | onClosed socket => exact h.onClosed socket

theorem run (h : Sound s) {es : List UdpEvent}
    (hes : Machine.Along UdpController.step Proper s es) :
    Sound (Machine.run UdpController.step s es) :=
  Machine.invariant_run (fun _ event hs hproper => hs.step event hproper) h hes

end Sound

/-- What the sends come to, in any order of calls and of what the loop does: each one that was
accepted is in flight or its callback was called, and just once; `sending_requests` counts the
ones in flight; the send pool never gets back an element that `uv_udp_send` refused; and the only
faults are the closes of sockets that could not be set up. -/
theorem sends_run {es : List UdpEvent} (hes : Machine.Along step Proper create es) :
    let s := Machine.run step create es
    (∀ number < s.nextSend,
        (s.sends.map UdpSend.number).count number + s.finished.count number = 1) ∧
      s.sendingRequests = s.sends.length + (if s.completing then 1 else 0) ∧
      s.sendPool = s.sends.length + s.refused ∧
      (s.fault = true ↔ ∃ socket ∈ s.closed, socket.listed = false) := by
  have h := sound_create.run hes
  exact ⟨fun _ hnumber => h.sends.count hnumber, h.counter, h.pool, h.fault⟩

/-- A send whose socket is stopped in the callback of another one. -/
theorem sends_run_sample :
    let es : List UdpEvent :=
      [.startup, .bind true true true true true, .send 0 7 true true true,
        .send 0 8 true true false, .send 0 9 true true true, .sendDone 0, .stop 0, .sendReturn,
        .onClosed 0, .sendDone 2, .sendReturn, .sendDone 1, .sendReturn, .onClosed 0]
    let s := Machine.run step create es
    (∀ number < s.nextSend,
        (s.sends.map UdpSend.number).count number + s.finished.count number = 1) ∧
      s.sendingRequests = s.sends.length + (if s.completing then 1 else 0) ∧
      s.sendPool = s.sends.length + s.refused ∧
      (s.fault = true ↔ ∃ socket ∈ s.closed, socket.listed = false) :=
  sends_run (by decide)

section Open

variable {s : UdpController} {socket other : ℕ}

theorem IsOpen.close (h : s.IsOpen socket) (hne : socket ≠ other) :
    (s.close other).IsOpen socket := by
  obtain ⟨found, hfound, rfl, hlisted, hclosing⟩ := h
  refine ⟨found, List.mem_map.mpr ⟨found, hfound, if_neg hne⟩, rfl, hlisted, hclosing⟩

theorem IsOpen.openSocket (h : s.IsOpen socket) (hs : Sound s)
    (valid acquired attached receiving added : Bool) :
    (s.openSocket valid acquired attached receiving added).1.IsOpen socket := by
  obtain ⟨found, hfound, rfl, hlisted, hclosing⟩ := h
  unfold UdpController.openSocket
  split
  · exact ⟨found, hfound, rfl, hlisted, hclosing⟩
  split
  · exact ⟨found, hfound, rfl, hlisted, hclosing⟩
  dsimp only
  rw [hs.close_add]
  have hmem : ∀ last : UdpSocket, found ∈ s.sockets ++ [last] := fun last =>
    List.mem_append_left _ hfound
  split
  · exact ⟨found, hmem _, rfl, hlisted, hclosing⟩
  split
  · exact ⟨found, hmem _, rfl, hlisted, hclosing⟩
  split <;> exact ⟨found, hmem _, rfl, hlisted, hclosing⟩

theorem isOpen_openSocket {valid acquired attached receiving added : Bool}
    (h : (s.openSocket valid acquired attached receiving added).2 = some socket) :
    socket = s.nextSocket ∧
      (s.openSocket valid acquired attached receiving added).1.IsOpen socket := by
  unfold UdpController.openSocket at h ⊢
  split at h
  · cases h
  split at h
  · cases h
  dsimp only at h ⊢
  split at h
  · cases h
  split at h
  · cases h
  split at h
  · cases h
  next hvalid hacquired hattached hreceiving hadded =>
  obtain rfl := Option.some.inj h
  rw [if_neg hvalid, if_neg hacquired, if_neg hattached, if_neg hreceiving, if_neg hadded]
  exact ⟨rfl, _, List.mem_append_right _ List.mem_cons_self, rfl, rfl, rfl⟩

theorem IsOpen.lt (h : s.IsOpen socket) (hs : Sound s) : socket < s.nextSocket := by
  obtain ⟨found, hfound, rfl, -⟩ := h
  exact hs.sockets.lt_of_pending (List.mem_map_of_mem hfound)

theorem sockets_send (s : UdpController) (socket data : ℕ) (valid acquired accepted : Bool) :
    (s.send socket data valid acquired accepted).1.sockets = s.sockets := by
  unfold UdpController.send
  repeat' split
  all_goals rfl

theorem sockets_sendDone (s : UdpController) (number : ℕ) :
    (s.sendDone number).1.sockets = s.sockets := by
  unfold UdpController.sendDone
  repeat' split
  all_goals rfl

theorem sockets_sendReturn (s : UdpController) : s.sendReturn.1.sockets = s.sockets := by
  unfold UdpController.sendReturn
  split <;> rfl

theorem IsOpen.stop_eq (h : s.IsOpen socket) : s.stop socket = s.close socket := by
  obtain ⟨found, hfound, hnumber, -⟩ := h
  exact if_pos (List.any_eq_true.mpr ⟨found, hfound, decide_eq_true hnumber⟩)

theorem IsOpen.onClosed (h : s.IsOpen socket) (hs : Sound s) (number : ℕ) :
    (s.onClosed number).1.IsOpen socket := by
  obtain ⟨found, hfound, rfl, hlisted, hclosing⟩ := h
  have hopen : s.IsOpen found.number := ⟨found, hfound, rfl, hlisted, hclosing⟩
  unfold UdpController.onClosed
  split
  · exact hopen
  split
  · exact hopen
  next closed hfind =>
  split
  · exact hopen
  split
  · exact hopen
  next hcloses _ =>
  refine ⟨found, List.mem_filter.mpr ⟨hfound, decide_eq_true fun heq => ?_⟩, rfl, hlisted, hclosing⟩
  have hnumber : closed.number = number := by simpa using List.find?_some hfind
  obtain rfl : closed = found := List.inj_on_of_nodup_map hs.sockets.nodup_pending
    (List.mem_of_find?_eq_some hfind) hfound (hnumber.trans heq.symm)
  rw [hclosing] at hcloses
  exact hcloses rfl

end Open

section Sends

variable {s : UdpController} {socket data : ℕ} {valid acquired accepted : Bool}

theorem sends_openSocket (s : UdpController) (valid acquired attached receiving added : Bool) :
    (s.openSocket valid acquired attached receiving added).1.sends = s.sends := by
  unfold UdpController.openSocket
  repeat' split
  all_goals rfl

theorem sends_shutdown (s : UdpController) : s.shutdown.1.sends = s.sends := by
  unfold UdpController.shutdown
  split
  · rfl
  · exact List.foldlRecOn (motive := fun t : UdpController => t.sends = s.sends) _ _ rfl
      fun _ ht _ _ => ht

theorem sends_sendReturn (s : UdpController) : s.sendReturn.1.sends = s.sends := by
  unfold UdpController.sendReturn
  split <;> rfl

theorem sends_onClosed (s : UdpController) (number : ℕ) :
    (s.onClosed number).1.sends = s.sends := by
  unfold UdpController.onClosed
  repeat' split
  all_goals rfl

theorem sends_send_of_refused (h : (s.send socket data valid acquired accepted).2 = false) :
    (s.send socket data valid acquired accepted).1.sends = s.sends := by
  unfold UdpController.send at h ⊢
  split_ifs at h ⊢
  all_goals rfl

theorem data_send (h : (s.send socket data valid acquired accepted).2 = true) :
    (s.send socket data valid acquired accepted).1.sends.map UdpSend.data =
      s.sends.map UdpSend.data ++ [data] := by
  unfold UdpController.send at h ⊢
  split_ifs at h ⊢
  simp

end Sends

end UdpController

end Platform

end PomeloUdp
