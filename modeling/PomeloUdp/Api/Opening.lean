import Mathlib.Algebra.Group.Nat.Defs
import Mathlib.Order.Interval.Finset.Nat
import PomeloUdp.Base.Address
import PomeloUdp.Library.Run

/-!
# Connecting and listening

`pomelo_socket_connect` and `pomelo_socket_listen` create a protocol socket, attach it to the
socket and start it. Neither of them undoes the first two when the start fails: the protocol
socket stays attached, and the next attempt attaches another one. `connect` also tells the plugins
of every attempt that came that far.

`opening_iff` says which failing attempts leave the socket as it was, and after which of them a
socket that runs at last has one protocol socket.
-/

namespace PomeloUdp

namespace Api

namespace Opening

open Codec Machine

/-- `pomelo_socket_state`. -/
inductive SocketState where
  | stopped
  | stopping
  | runningServer
  | runningClient
  deriving DecidableEq

/-- `pomelo_protocol_socket_mode`. -/
inductive ProtocolSocketMode where
  | server
  | client
  deriving DecidableEq

/-- `pomelo_protocol_socket_t`: its mode, whether it runs, and whether its extra data is the
socket. -/
structure ProtocolSocket where
  id : ℕ
  mode : ProtocolSocketMode
  running : Bool
  extra : Bool
  deriving DecidableEq

/-- What the plugins are told. -/
inductive PluginDispatch where
  /-- `pomelo_plugin_dispatch_socket_on_connecting`. -/
  | onConnecting (connectToken : List UInt8)
  /-- `pomelo_plugin_dispatch_socket_on_listening`. -/
  | onListening (address : Address)
  deriving DecidableEq

/-- `pomelo_socket_t`, with the protocol sockets that were created for it and are alive. -/
structure ApiSocket where
  state : SocketState
  protocolSocket : Option ℕ
  stoppedComponents : UInt8
  privateKey : List UInt8
  alive : List ProtocolSocket
  /-- The number of protocol sockets that were created, from which their names are taken. -/
  created : ℕ
  dispatched : List PluginDispatch
  deriving DecidableEq

/-- The error codes of the two functions. -/
def errSocketInvalidArg : ℤ := -30

def errSocketIllegalState : ℤ := -31

def errSocketConnect : ℤ := -32

def errSocketListen : ℤ := -33

/-- What `pomelo_protocol_client_start` and `pomelo_protocol_server_start` return: zero or an
error. -/
structure StartCode where
  ret : ℤ
  le : ret ≤ 0
  deriving DecidableEq

/-- What an attempt meets: whether the pool gives a protocol socket that could be initialized,
and what its start returns. -/
structure AttemptEnv where
  create : Bool
  start : StartCode
  deriving DecidableEq

namespace ApiSocket

/-- The socket that `pomelo_socket_create` returns. -/
def fresh : ApiSocket where
  state := .stopped
  protocolSocket := none
  stoppedComponents := 0
  privateKey := []
  alive := []
  created := 0
  dispatched := []

/-- `pomelo_protocol_client_create` and `pomelo_protocol_server_create`. -/
def protocolCreate (s : ApiSocket) (mode : ProtocolSocketMode) (ok : Bool) :
    ApiSocket × Option ℕ :=
  if ok then
    ({ s with
      alive := s.alive ++ [⟨s.created, mode, false, false⟩]
      created := s.created + 1 }, some s.created)
  else (s, none)

/-- Writing a protocol socket. -/
def modifyProtocol (s : ApiSocket) (id : ℕ) (f : ProtocolSocket → ProtocolSocket) : ApiSocket :=
  { s with alive := s.alive.map fun p => if p.id = id then f p else p }

/-- `pomelo_protocol_socket_set_extra`. -/
def protocolSetExtra (s : ApiSocket) (id : ℕ) : ApiSocket :=
  s.modifyProtocol id fun p => { p with extra := true }

/-- `pomelo_protocol_socket_start` of a new protocol socket. -/
def protocolStart (s : ApiSocket) (id : ℕ) (code : StartCode) : ApiSocket × ℤ :=
  if code.ret = 0 then (s.modifyProtocol id fun p => { p with running := true }, code.ret)
  else (s, code.ret)

/-- `pomelo_socket_connect`. -/
def connect (s : ApiSocket) (connectToken : List UInt8) (env : AttemptEnv) : ApiSocket × ℤ :=
  if s.state ≠ .stopped then (s, errSocketIllegalState)
  else
    let r := s.protocolCreate .client env.create
    let s := { r.1 with protocolSocket := r.2 }
    match r.2 with
    | none => (s, errSocketConnect)
    | some id =>
        let s := s.protocolSetExtra id
        let r := s.protocolStart id env.start
        let s := if r.2 = 0 then { r.1 with state := .runningClient, stoppedComponents := 0 }
          else r.1
        ({ s with dispatched := s.dispatched ++ [.onConnecting connectToken] }, r.2)

/-- `pomelo_socket_listen`. -/
def listen (s : ApiSocket) (privateKey : List UInt8) (maxClients : ℕ) (address : Address)
    (env : AttemptEnv) : ApiSocket × ℤ :=
  if s.state ≠ .stopped then (s, errSocketIllegalState)
  else if maxClients = 0 then (s, errSocketInvalidArg)
  else
    let r := s.protocolCreate .server env.create
    let s := { r.1 with protocolSocket := r.2 }
    match r.2 with
    | none => (s, errSocketListen)
    | some id =>
        let s := s.protocolSetExtra id
        let r := s.protocolStart id env.start
        if r.2 < 0 then (r.1, r.2)
        else
          ({ r.1 with
            state := .runningServer
            stoppedComponents := 0
            privateKey := privateKey
            dispatched := r.1.dispatched ++ [.onListening address] }, 0)

end ApiSocket

/-- A call of one of the two functions. -/
inductive Attempt where
  | connect (connectToken : List UInt8) (env : AttemptEnv)
  | listen (privateKey : List UInt8) (maxClients : ℕ) (address : Address) (env : AttemptEnv)
  deriving DecidableEq

namespace ApiSocket

/-- An attempt and what it returns. -/
def attempt (s : ApiSocket) : Attempt → ApiSocket × ℤ
  | .connect connectToken env => s.connect connectToken env
  | .listen privateKey maxClients address env => s.listen privateKey maxClients address env

/-- The socket after an attempt. -/
def step (s : ApiSocket) (a : Attempt) : ApiSocket := (s.attempt a).1

/-- The attempt fails. -/
def Fails (s : ApiSocket) (a : Attempt) : Prop := (s.attempt a).2 ≠ 0

instance (s : ApiSocket) (a : Attempt) : Decidable (s.Fails a) :=
  inferInstanceAs (Decidable (_ ≠ _))

/-- A failing attempt leaves a stopped socket as it was. -/
def Unchanged (s : ApiSocket) (a : Attempt) : Prop :=
  s.state = .stopped → s.Fails a → s.step a = s

/-- After failing attempts on a new socket and one that succeeds, one protocol socket is alive. -/
def OneAlive (failing : List Attempt) (a : Attempt) : Prop :=
  Along step Fails fresh failing → ¬ (run step fresh failing).Fails a →
    (run step fresh (failing ++ [a])).alive.length = 1

end ApiSocket

namespace Attempt

/-- The arguments are refused. -/
def Refused : Attempt → Prop
  | connect _ _ => False
  | listen _ maxClients _ _ => maxClients = 0

/-- The attempt gets a protocol socket. -/
def Creates : Attempt → Prop
  | connect _ env => env.create = true
  | listen _ maxClients _ env => maxClients ≠ 0 ∧ env.create = true

instance : ∀ a : Attempt, Decidable a.Creates
  | connect _ env => inferInstanceAs (Decidable (env.create = true))
  | listen _ maxClients _ env => inferInstanceAs (Decidable (maxClients ≠ 0 ∧ env.create = true))

end Attempt

namespace ApiSocket

variable {s : ApiSocket} {a : Attempt}

theorem alive_modifyProtocol (id : ℕ) (f : ProtocolSocket → ProtocolSocket) :
    (s.modifyProtocol id f).alive.length = s.alive.length := List.length_map _

theorem alive_protocolStart (id : ℕ) (code : StartCode) :
    (s.protocolStart id code).1.alive.length = s.alive.length := by
  rw [protocolStart]
  split
  · exact alive_modifyProtocol _ _
  · rfl

theorem state_protocolStart (id : ℕ) (code : StartCode) :
    (s.protocolStart id code).1.state = s.state ∧ (s.protocolStart id code).2 = code.ret := by
  rw [protocolStart]
  split
  · exact ⟨rfl, rfl⟩
  · exact ⟨rfl, rfl⟩

theorem attempt_refused (hstopped : s.state = .stopped) (hrefused : a.Refused) :
    s.attempt a = (s, errSocketInvalidArg) := by
  cases a with
  | connect connectToken env => exact hrefused.elim
  | listen privateKey maxClients address env =>
      rw [attempt, listen, if_neg (by simp [hstopped]), if_pos (show maxClients = 0 from hrefused)]

theorem attempt_notCreates (hstopped : s.state = .stopped) (hrefused : ¬ a.Refused)
    (hcreates : ¬ a.Creates) :
    (s.attempt a).1 = { s with protocolSocket := none } ∧ (s.attempt a).2 < 0 := by
  cases a with
  | connect connectToken env =>
      have hcreate : env.create = false := by simpa [Attempt.Creates] using hcreates
      have hconnect : s.attempt (.connect connectToken env) =
          ({ s with protocolSocket := none }, errSocketConnect) := by
        simp [attempt, connect, hstopped, protocolCreate, hcreate]
      rw [hconnect]
      exact ⟨rfl, (by decide : errSocketConnect < 0)⟩
  | listen privateKey maxClients address env =>
      have hpositive : maxClients ≠ 0 := hrefused
      have hcreate : env.create = false := by simpa [Attempt.Creates, hpositive] using hcreates
      have hlisten : s.attempt (.listen privateKey maxClients address env) =
          ({ s with protocolSocket := none }, errSocketListen) := by
        simp [attempt, listen, hstopped, hpositive, protocolCreate, hcreate]
      rw [hlisten]
      exact ⟨rfl, (by decide : errSocketListen < 0)⟩

/-- The socket with a new protocol socket attached. -/
def attached (s : ApiSocket) (mode : ProtocolSocketMode) : ApiSocket :=
  { (s.protocolCreate mode true).1 with
    protocolSocket := some s.created }.protocolSetExtra s.created

theorem alive_attached (mode : ProtocolSocketMode) :
    (s.attached mode).alive.length = s.alive.length + 1 :=
  (alive_modifyProtocol _ _).trans List.length_append

theorem connect_eq (hstopped : s.state = .stopped) {env : AttemptEnv} (hcreate : env.create = true)
    (connectToken : List UInt8) :
    s.connect connectToken env =
      let r := (s.attached .client).protocolStart s.created env.start
      let s := if r.2 = 0 then { r.1 with state := .runningClient, stoppedComponents := 0 } else r.1
      ({ s with dispatched := s.dispatched ++ [.onConnecting connectToken] }, r.2) := by
  rw [connect, if_neg (by simp [hstopped]), hcreate]
  rfl

theorem listen_eq (hstopped : s.state = .stopped) {env : AttemptEnv} (hcreate : env.create = true)
    {maxClients : ℕ} (hpositive : maxClients ≠ 0) (privateKey : List UInt8) (address : Address) :
    s.listen privateKey maxClients address env =
      let r := (s.attached .server).protocolStart s.created env.start
      if r.2 < 0 then (r.1, r.2)
      else
        ({ r.1 with
          state := .runningServer
          stoppedComponents := 0
          privateKey := privateKey
          dispatched := r.1.dispatched ++ [.onListening address] }, 0) := by
  rw [listen, if_neg (by simp [hstopped]), if_neg hpositive, hcreate]
  rfl

theorem attempt_creates (hstopped : s.state = .stopped) (hcreates : a.Creates) :
    (s.step a).alive.length = s.alive.length + 1 ∧
      (s.Fails a ↔ (s.step a).state = .stopped) := by
  cases a with
  | connect connectToken env =>
      rw [step, Fails, attempt, connect_eq hstopped hcreates]
      obtain ⟨hstate, hret⟩ := state_protocolStart (s := s.attached .client) s.created env.start
      have hstate : _ = SocketState.stopped := hstate.trans hstopped
      dsimp only
      split
      next hzero =>
        exact ⟨(alive_protocolStart _ _).trans (alive_attached _), by simp [hzero]⟩
      next hne =>
        exact ⟨(alive_protocolStart _ _).trans (alive_attached _), by simp [hne, hstate]⟩
  | listen privateKey maxClients address env =>
      rw [step, Fails, attempt, listen_eq hstopped hcreates.2 hcreates.1]
      obtain ⟨hstate, hret⟩ := state_protocolStart (s := s.attached .server) s.created env.start
      have hstate : _ = SocketState.stopped := hstate.trans hstopped
      dsimp only
      split
      next hneg =>
        exact ⟨(alive_protocolStart _ _).trans (alive_attached _), by simp [hneg.ne, hstate]⟩
      next hneg =>
        exact ⟨(alive_protocolStart _ _).trans (alive_attached _), by simp⟩

theorem state_of_fails (hstopped : s.state = .stopped) (hfails : s.Fails a) :
    (s.step a).state = .stopped := by
  by_cases hcreates : a.Creates
  · exact (attempt_creates hstopped hcreates).2.mp hfails
  · by_cases hrefused : a.Refused
    · rw [step, attempt_refused hstopped hrefused, hstopped]
    · rw [step, (attempt_notCreates hstopped hrefused hcreates).1, hstopped]

theorem fails_of_not_creates (hstopped : s.state = .stopped) (hcreates : ¬ a.Creates) :
    s.Fails a := by
  by_cases hrefused : a.Refused
  · rw [Fails, attempt_refused hstopped hrefused]
    exact (by decide : errSocketInvalidArg ≠ 0)
  · exact (attempt_notCreates hstopped hrefused hcreates).2.ne

theorem alive_step (hstopped : s.state = .stopped) :
    (s.step a).alive.length = s.alive.length + if a.Creates then 1 else 0 := by
  split
  next hcreates => exact (attempt_creates hstopped hcreates).1
  next hcreates =>
    by_cases hrefused : a.Refused
    · rw [step, attempt_refused hstopped hrefused, Nat.add_zero]
    · rw [step, (attempt_notCreates hstopped hrefused hcreates).1, Nat.add_zero]

theorem unchanged_iff (hstopped : s.state = .stopped) :
    s.step a = s ↔ ¬ a.Creates ∧ (a.Refused ∨ s.protocolSocket = none) := by
  by_cases hcreates : a.Creates
  · refine iff_of_false (fun hsame => ?_) fun h => h.1 hcreates
    have halive := (attempt_creates hstopped hcreates).1
    rw [hsame] at halive
    omega
  · rw [and_iff_right hcreates]
    by_cases hrefused : a.Refused
    · rw [step, attempt_refused hstopped hrefused]
      exact iff_of_true rfl (.inl hrefused)
    · rw [step, (attempt_notCreates hstopped hrefused hcreates).1, or_iff_right hrefused]
      constructor
      · intro hsame
        exact (congrArg protocolSocket hsame).symm
      · intro hnone
        rw [← hnone]

/-- The protocol sockets that failing attempts leave behind. -/
theorem alive_run (hstopped : s.state = .stopped) {failing : List Attempt}
    (hfails : Along step Fails s failing) :
    (run step s failing).state = .stopped ∧
      (run step s failing).alive.length =
        s.alive.length + failing.countP fun a => decide a.Creates := by
  induction failing generalizing s with
  | nil => exact ⟨hstopped, rfl⟩
  | cons a failing ih =>
      obtain ⟨hrun, halive⟩ := ih (state_of_fails hstopped hfails.1) hfails.2
      refine ⟨hrun, ?_⟩
      rw [run_cons, halive, alive_step hstopped, List.countP_cons]
      simp only [decide_eq_true_eq]
      omega

/-- A failing attempt leaves a stopped socket as it was exactly if it gets no protocol socket and
its arguments are refused or no protocol socket is attached. After failing attempts one protocol
socket is alive exactly if none of them got one. -/
theorem opening_iff (s : ApiSocket) (failing : List Attempt) (a : Attempt) :
    (s.Unchanged a ↔
        (s.state = .stopped → s.Fails a → ¬ a.Creates ∧ (a.Refused ∨ s.protocolSocket = none))) ∧
      (OneAlive failing a ↔
        (Along step Fails fresh failing → ¬ (run step fresh failing).Fails a →
          ∀ b ∈ failing, ¬ b.Creates)) := by
  refine ⟨forall_congr' fun hstopped => forall_congr' fun _ => unchanged_iff hstopped,
    forall_congr' fun hfails => forall_congr' fun hsucceeds => ?_⟩
  obtain ⟨hstopped, halive⟩ := alive_run rfl hfails
  have hcreates : a.Creates := by
    by_contra hcreates
    exact hsucceeds (fails_of_not_creates hstopped hcreates)
  have hcount : failing.countP (fun a => decide a.Creates) = 0 ↔ ∀ b ∈ failing, ¬ b.Creates := by
    rw [List.countP_eq_zero]
    simp only [decide_eq_true_eq]
  have hfresh : fresh.alive.length = 0 := rfl
  rw [run_append, run_cons, run_nil, (attempt_creates hstopped hcreates).1, halive, ← hcount]
  omega

/-- A connect that fails at the start of its client, and another one that succeeds. -/
theorem not_opening_startFailed :
    ¬ fresh.Unchanged (.connect [] ⟨true, -1, by decide⟩) ∧
      ¬ OneAlive [.connect [] ⟨true, -1, by decide⟩] (.connect [] ⟨true, 0, by decide⟩) :=
  ⟨fun h => absurd (h rfl (by decide)) (by decide),
    fun h => absurd (h (by decide) (by decide)) (by decide)⟩

end ApiSocket

end Opening

end Api

end PomeloUdp
